import Mathlib.Data.List.Basic

/-!
# The device table

`device_open` and `device_close` of `kernel/device/device.c`.  How the driver of a device
answers when it is asked to open the device is a parameter.
-/

namespace CleanOS.Device

/-- What the table functions use of `device_t`.  A driver is known by its major number. -/
structure DeviceSlot where
  desc : Option Int
  minor : Int
  openCount : UInt32

/-- `DEV_TTY`. -/
def devTty : Int := 1

/-- `DEV_DISK`. -/
def devDisk : Int := 2

/-- `device_desc_table`. -/
def deviceDescTable : List Int := [devTty, devDisk]

/-- What the drivers' `open` returns, by the major and the minor number. -/
abbrev DriverOpen := Int → Int → Int

/-- The loop of `device_open`, which ends at the open device and remembers the last free
place before it. -/
def deviceOpenLoop (major minor : Int) :
    List DeviceSlot → (i : Nat) → (freeDev : Option Nat) → Option Nat × Option Nat
  | [], _, freeDev => (none, freeDev)
  | dev :: devices, i, freeDev =>
      if dev.openCount = 0 then deviceOpenLoop major minor devices (i + 1) (some i)
      else if dev.desc = some major ∧ dev.minor = minor then (some i, freeDev)
      else deviceOpenLoop major minor devices (i + 1) freeDev

/-- `device_open`: the place of the device, or `-1`, and the table after it. -/
def deviceOpen (driverOpen : DriverOpen) (devices : List DeviceSlot) (major minor : Int) :
    Int × List DeviceSlot :=
  match deviceOpenLoop major minor devices 0 none with
  | (some i, _) => (i, devices.modify i fun dev => { dev with openCount := dev.openCount + 1 })
  | (none, freeDev) =>
      match deviceDescTable.find? (· = major), freeDev with
      | some desc, some free =>
          if driverOpen desc minor = 0 then
            (free, devices.modify free fun _ => ⟨some desc, minor, 1⟩)
          else (-1, devices.modify free fun dev => ⟨some desc, minor, dev.openCount⟩)
      | _, _ => (-1, devices)

/-- `validate_device`. -/
def validateDevice (devices : List DeviceSlot) (devId : Int) : Bool :=
  match devices[devId.toNat]? with
  | some dev => decide (0 ≤ devId) && dev.desc.isSome
  | none => false

/-- `device_close`. -/
def deviceClose (devices : List DeviceSlot) (devId : Int) : List DeviceSlot :=
  if validateDevice devices devId then
    devices.modify devId.toNat fun dev =>
      if dev.openCount - 1 = 0 then ⟨none, 0, 0⟩ else { dev with openCount := dev.openCount - 1 }
  else devices

def openCounts (devices : List DeviceSlot) : List UInt32 :=
  devices.map DeviceSlot.openCount

variable {driverOpen : DriverOpen} {devices : List DeviceSlot} {major minor : Int}
  {i place : Nat} {freeDev : Option Nat}

def Holds (devices : List DeviceSlot) (place : Nat) (property : DeviceSlot → Prop) : Prop :=
  ∃ dev, devices[place]? = some dev ∧ property dev

theorem deviceOpenLoop_spec {rest : List DeviceSlot} (here : ∀ j, rest[j]? = devices[i + j]?)
    (isFree : ∀ place ∈ freeDev, Holds devices place fun dev => dev.openCount = 0) :
    (∀ place ∈ (deviceOpenLoop major minor rest i freeDev).1,
        Holds devices place fun dev => dev.openCount ≠ 0 ∧ dev.desc = some major) ∧
      ∀ place ∈ (deviceOpenLoop major minor rest i freeDev).2,
        Holds devices place fun dev => dev.openCount = 0 := by
  induction rest generalizing i freeDev with
  | nil =>
      refine ⟨fun place found => ?_, isFree⟩
      cases found
  | cons dev rest ih =>
      have now : devices[i]? = some dev := (here 0).symm
      have later : ∀ j, rest[j]? = devices[i + 1 + j]? := by
        intro j
        have next := here (j + 1)
        rwa [List.getElem?_cons_succ, show i + (j + 1) = i + 1 + j by omega] at next
      rw [deviceOpenLoop]
      by_cases closed : dev.openCount = 0
      · rw [if_pos closed]
        apply ih later
        intro place found
        cases found
        exact ⟨dev, now, closed⟩
      · rw [if_neg closed]
        by_cases same : dev.desc = some major ∧ dev.minor = minor
        · rw [if_pos same]
          refine ⟨fun place found => ?_, isFree⟩
          cases found
          exact ⟨dev, now, closed, same.1⟩
        · rw [if_neg same]
          exact ih later isFree

theorem openCounts_modify {change : DeviceSlot → DeviceSlot}
    (same : ∀ dev, devices[i]? = some dev → (change dev).openCount = dev.openCount) :
    openCounts (devices.modify i change) = openCounts devices := by
  apply List.ext_getElem?
  intro j
  rw [openCounts, openCounts, List.getElem?_map, List.getElem?_map, List.getElem?_modify]
  by_cases here : i = j
  · subst here
    cases found : devices[i]? with
    | none => rfl
    | some dev => simp [same dev found]
  · simp [here]

theorem deviceClose_modify {change : DeviceSlot → DeviceSlot}
    (isDevice : Holds devices i fun dev => (change dev).desc.isSome = true ∧
      (if (change dev).openCount - 1 = 0 then 0 else (change dev).openCount - 1) =
        dev.openCount) :
    openCounts (deviceClose (devices.modify i change) i) = openCounts devices := by
  obtain ⟨dev, found, hasDriver, back⟩ := isDevice
  have valid : validateDevice (devices.modify i change) i = true := by
    rw [validateDevice]
    simp [found, hasDriver]
  rw [deviceClose, if_pos valid, Int.toNat_natCast, List.modify_modify_eq]
  apply openCounts_modify
  intro other isOther
  cases found.symm.trans isOther
  rw [← back]
  change DeviceSlot.openCount (if _ then _ else _) = _
  split
  · rfl
  · rfl

/-- What `device_open` does: it counts an open device once more, it takes a free place, or it
fails. -/
theorem deviceOpen_cases (driverOpen : DriverOpen) (devices : List DeviceSlot)
    (major minor : Int) :
    (∃ place : Nat, Holds devices place (fun dev => dev.openCount ≠ 0 ∧ dev.desc = some major) ∧
      deviceOpen driverOpen devices major minor =
        ((place : Int), devices.modify place fun dev => { dev with openCount := dev.openCount + 1 })) ∨
    (∃ (place : Nat) (desc : Int), Holds devices place (fun dev => dev.openCount = 0) ∧
      deviceOpen driverOpen devices major minor =
        ((place : Int), devices.modify place fun _ => ⟨some desc, minor, 1⟩)) ∨
    ∃ after, openCounts after = openCounts devices ∧
      deviceOpen driverOpen devices major minor = (-1, after) := by
  have here : ∀ j, devices[j]? = devices[0 + j]? := fun j => by rw [Nat.zero_add]
  have spec := @deviceOpenLoop_spec devices major minor 0 none devices here
    (fun place found => nomatch found)
  rw [deviceOpen]
  cases scanned : deviceOpenLoop major minor devices 0 none with
  | mk found freeDev =>
      rw [scanned] at spec
      cases found with
      | some place => exact Or.inl ⟨place, spec.1 place rfl, rfl⟩
      | none =>
          apply Or.inr
          cases isDesc : deviceDescTable.find? (· = major) with
          | none => exact Or.inr ⟨devices, rfl, rfl⟩
          | some desc =>
              cases freeDev with
              | none => exact Or.inr ⟨devices, rfl, rfl⟩
              | some free =>
                  by_cases opened : driverOpen desc minor = 0
                  · exact Or.inl ⟨free, desc, spec.2 free rfl, if_pos opened⟩
                  · refine Or.inr ⟨devices.modify free fun dev =>
                      ⟨some desc, minor, dev.openCount⟩, ?_, if_neg opened⟩
                    exact openCounts_modify fun _ _ => rfl

theorem deviceClose_deviceOpen (opened : 0 ≤ (deviceOpen driverOpen devices major minor).1) :
    openCounts (deviceClose (deviceOpen driverOpen devices major minor).2
      (deviceOpen driverOpen devices major minor).1) = openCounts devices := by
  rcases deviceOpen_cases driverOpen devices major minor with
    ⟨place, ⟨dev, isDev, isOpen, hasDriver⟩, result⟩ | ⟨place, desc, ⟨dev, isDev, closed⟩, result⟩ |
      ⟨after, -, result⟩
  · rw [result]
    apply deviceClose_modify
    refine ⟨dev, isDev, by simp [hasDriver], ?_⟩
    simp [isOpen]
  · rw [result]
    apply deviceClose_modify
    refine ⟨dev, isDev, rfl, ?_⟩
    simp [closed]
  · rw [result] at opened
    exact absurd opened (show ¬ (0 : Int) ≤ -1 by decide)

theorem openCounts_modify_ne {change : DeviceSlot → DeviceSlot}
    (isDevice : Holds devices i fun dev => (change dev).openCount ≠ dev.openCount) :
    openCounts (devices.modify i change) ≠ openCounts devices := by
  obtain ⟨dev, found, different⟩ := isDevice
  intro same
  have atPlace := congrArg (fun counts => counts[i]?) same
  simp only [openCounts, List.getElem?_map, List.getElem?_modify_eq, found] at atPlace
  exact different (Option.some.inj atPlace)

theorem deviceOpen_counted (opened : 0 ≤ (deviceOpen driverOpen devices major minor).1) :
    openCounts (deviceOpen driverOpen devices major minor).2 ≠ openCounts devices := by
  rcases deviceOpen_cases driverOpen devices major minor with
    ⟨place, ⟨dev, isDev, -⟩, result⟩ | ⟨place, desc, ⟨dev, isDev, closed⟩, result⟩ |
      ⟨after, -, result⟩
  · rw [result]
    apply openCounts_modify_ne
    exact ⟨dev, isDev, by simp⟩
  · rw [result]
    apply openCounts_modify_ne
    exact ⟨dev, isDev, by simp [closed]⟩
  · rw [result] at opened
    exact absurd opened (show ¬ (0 : Int) ≤ -1 by decide)

end CleanOS.Device
