import CleanOS.Common.Datetime
import CleanOS.Fs.ShortNames
import CleanOS.Fs.Volume

/-!
# Times of FAT entries

`init_dir_entry`, and the times in `fat16_close` and `fat16_stat`, of `kernel/fs/fat16fs.c`.
-/

namespace CleanOS.Fs

open CleanOS.Common CleanOS.Lib.Calendar

/-- `time_t`. -/
structure RtcTime where
  second : UInt8
  minute : UInt8
  hour : UInt8
  day : UInt8
  month : UInt8
  year : UInt32

/-- `file_time`, whose bit-fields are packed. -/
structure FileTime where
  hour : BitVec 5
  minu : BitVec 6
  second : BitVec 5

/-- `file_date`. -/
structure FileDate where
  year : BitVec 7
  month : BitVec 4
  day : BitVec 5

/-- The word `v`, in which the first field has the lowest bits. -/
def FileTime.v (time : FileTime) : BitVec 16 :=
  time.second ++ time.minu ++ time.hour

/-- The word `v`. -/
def FileDate.v (date : FileDate) : BitVec 16 :=
  date.day ++ date.month ++ date.year

def FileTime.ofRtc (time : RtcTime) : FileTime where
  hour := BitVec.ofNat 5 time.hour.toNat
  minu := BitVec.ofNat 6 time.minute.toNat
  second := BitVec.ofNat 5 time.second.toNat

def FileDate.ofRtc (year : UInt32) (time : RtcTime) : FileDate where
  year := BitVec.ofNat 7 year.toNat
  month := BitVec.ofNat 4 time.month.toNat
  day := BitVec.ofNat 5 time.day.toNat

/-- `YEAR_OFFSET`. -/
def yearOffset : Nat := 1900

/-- `datetime2timespec`: the seconds. -/
def datetime2timespec (date : FileDate) (time : FileTime) : Int :=
  mktime64 (UInt32.ofNat (date.year.toNat + yearOffset)) (UInt32.ofNat date.month.toNat)
    (UInt32.ofNat date.day.toNat) (UInt32.ofNat time.hour.toNat) (UInt32.ofNat time.minu.toNat)
    (UInt32.ofNat time.second.toNat)

/-- `dir_entry_t`. -/
structure FatDirEntry where
  name : Nat → UInt8
  attr : UInt8
  reserved : UInt8
  createTimeMs : UInt8
  createTime : FileTime
  createDate : FileDate
  accessDate : FileDate
  clusterHigh : UInt16
  writeTime : FileTime
  writeDate : FileDate
  clusterLow : UInt16
  fileSize : UInt32

/-- `init_dir_entry` at a time.  The fields behind the name are set after it. -/
def initDirEntry (entry : FatDirEntry) (name : CText) (attr : UInt8) (time : RtcTime) :
    FatDirEntry where
  name := toSfn entry.name name
  attr := attr
  reserved := 0
  createTimeMs := 0
  createTime := FileTime.ofRtc time
  createDate := FileDate.ofRtc time.year time
  accessDate := FileDate.ofRtc time.year time
  clusterHigh := UInt16.ofNat (invalidCluster >>> 16)
  writeTime := FileTime.ofRtc time
  writeDate := FileDate.ofRtc time.year time
  clusterLow := UInt16.ofNat invalidCluster
  fileSize := 0

/-- What `fat16_close` sets in the entry of a file. -/
def closeDirEntry (entry : FatDirEntry) (blockStart size : UInt32) (time : RtcTime) :
    FatDirEntry :=
  { entry with
    accessDate := FileDate.ofRtc (time.year - UInt32.ofNat yearOffset) time
    writeTime := FileTime.ofRtc time
    writeDate := FileDate.ofRtc (time.year - UInt32.ofNat yearOffset) time
    clusterHigh := (blockStart >>> 16).toUInt16
    clusterLow := blockStart.toUInt16
    fileSize := size }

/-- `create_time.tv_sec` of `fat16_stat`. -/
def statCreateTime (entry : FatDirEntry) : Int :=
  datetime2timespec entry.createDate entry.createTime

/-- `create_time.tv_nsec` of `fat16_stat`. -/
def statCreateNsec (entry : FatDirEntry) : Int :=
  entry.createTimeMs.toNat * 1000 * 1000

/-- `update_time.tv_sec` of `fat16_stat`. -/
def statUpdateTime (entry : FatDirEntry) : Int :=
  datetime2timespec entry.writeDate entry.writeTime

/-- A date and time of the years 2000 to 2027. -/
structure RtcTime.Valid (time : RtcTime) : Prop where
  year : 2000 ≤ time.year.toNat ∧ time.year.toNat ≤ 2027
  month : 1 ≤ time.month.toNat ∧ time.month.toNat ≤ 12
  day : 1 ≤ time.day.toNat ∧ time.day.toNat ≤ monthDays time.year.toNat time.month.toNat
  hour : time.hour.toNat < 24
  minute : time.minute.toNat < 60
  second : time.second.toNat < 60

namespace RtcTime.Valid

variable {time : RtcTime}

def date (valid : time.Valid) : Date where
  year := time.year.toNat
  month := time.month.toNat
  day := time.day.toNat
  isYear := Nat.le_trans (by decide) valid.year.1
  isMonth := valid.month
  isDay := valid.day

def unixTime (valid : time.Valid) : Nat :=
  valid.date.seconds time.hour.toNat time.minute.toNat time.second.toNat

theorem isLeap_before (valid : time.Valid) :
    IsLeap (time.year.toNat - 20) ↔ IsLeap time.year.toNat := by
  have isYear := valid.year
  rw [IsLeap, IsLeap]
  omega

def dateBefore (valid : time.Valid) : Date where
  year := time.year.toNat - 20
  month := time.month.toNat
  day := time.day.toNat
  isYear := Nat.le_sub_of_add_le (Nat.le_trans (by decide) valid.year.1)
  isMonth := valid.month
  isDay := by
    have same : monthDays (time.year.toNat - 20) time.month.toNat =
        monthDays time.year.toNat time.month.toNat := by
      simp only [monthDays, valid.isLeap_before]
    rw [same]
    exact valid.day

theorem days_before (valid : time.Valid) : valid.dateBefore.days + 7300 ≤ valid.date.days := by
  have isYear := valid.year
  have isYear : 1970 ≤ time.year.toNat := by omega
  have isBefore : 1970 ≤ time.year.toNat - 20 := by omega
  have years := daysBeforeYear_eq isYear
  have before := daysBeforeYear_eq isBefore
  have months : daysBeforeMonth (time.year.toNat - 20) time.month.toNat =
      daysBeforeMonth time.year.toNat time.month.toNat := by
    simp only [daysBeforeMonth, monthDays, valid.isLeap_before]
  change daysBeforeYear (time.year.toNat - 20) +
      daysBeforeMonth (time.year.toNat - 20) time.month.toNat + (time.day.toNat - 1) + 7300 ≤
    daysBeforeYear time.year.toNat + daysBeforeMonth time.year.toNat time.month.toNat +
      (time.day.toNat - 1)
  rw [months]
  omega

theorem ofRtc_time (valid : time.Valid) :
    (FileTime.ofRtc time).hour.toNat = time.hour.toNat ∧
      (FileTime.ofRtc time).minu.toNat = time.minute.toNat ∧
        (FileTime.ofRtc time).second.toNat = time.second.toNat % 32 := by
  have isHour := valid.hour
  have isMinute := valid.minute
  constructor
  · exact Nat.mod_eq_of_lt (Nat.lt_trans isHour (by decide))
  · constructor
    · exact Nat.mod_eq_of_lt (Nat.lt_trans isMinute (by decide))
    · rfl

theorem ofRtc_date (valid : time.Valid) (year : UInt32) :
    (FileDate.ofRtc year time).year.toNat = year.toNat % 128 ∧
      (FileDate.ofRtc year time).month.toNat = time.month.toNat ∧
        (FileDate.ofRtc year time).day.toNat = time.day.toNat := by
  have isMonth := valid.month
  have isDay := Nat.le_trans valid.day.2 monthDays_le
  constructor
  · rfl
  · constructor
    · exact Nat.mod_eq_of_lt (by omega)
    · exact Nat.mod_eq_of_lt (by omega)

theorem year_offset (valid : time.Valid) :
    (time.year - UInt32.ofNat yearOffset).toNat % 128 + yearOffset = time.year.toNat := by
  have isYear := valid.year
  have offset : UInt32.ofNat yearOffset ≤ time.year := by
    rw [UInt32.le_iff_toNat_le]
    exact Nat.le_trans (by decide) isYear.1
  rw [UInt32.toNat_sub_of_le _ _ offset]
  change (time.year.toNat - 1900) % 128 + 1900 = _
  omega

theorem datetime2timespec_offset (valid : time.Valid) :
    datetime2timespec (FileDate.ofRtc (time.year - UInt32.ofNat yearOffset) time)
        (FileTime.ofRtc time) =
      valid.date.seconds time.hour.toNat time.minute.toNat (time.second.toNat % 32) := by
  have isYear := valid.year
  obtain ⟨hour, minute, second⟩ := valid.ofRtc_time
  obtain ⟨year, month, day⟩ := valid.ofRtc_date (time.year - UInt32.ofNat yearOffset)
  rw [datetime2timespec, hour, minute, second, year, month, day, valid.year_offset]
  exact mktime64_eq valid.date (Nat.lt_of_le_of_lt isYear.2 (by decide)) valid.hour valid.minute
    (Nat.lt_trans (Nat.mod_lt _ (by decide)) (by decide))

theorem datetime2timespec_plain (valid : time.Valid) :
    datetime2timespec (FileDate.ofRtc time.year time) (FileTime.ofRtc time) =
      valid.dateBefore.seconds time.hour.toNat time.minute.toNat (time.second.toNat % 32) := by
  have isYear := valid.year
  obtain ⟨hour, minute, second⟩ := valid.ofRtc_time
  obtain ⟨year, month, day⟩ := valid.ofRtc_date time.year
  have stored : time.year.toNat % 128 + yearOffset = time.year.toNat - 20 := by
    rw [yearOffset]
    omega
  rw [datetime2timespec, hour, minute, second, year, month, day, stored]
  exact mktime64_eq valid.dateBefore (Nat.lt_of_le_of_lt (Nat.sub_le _ _)
    (Nat.lt_of_le_of_lt isYear.2 (by decide))) valid.hour valid.minute
      (Nat.lt_trans (Nat.mod_lt _ (by decide)) (by decide))

theorem plain_early (valid : time.Valid) :
    datetime2timespec (FileDate.ofRtc time.year time) (FileTime.ofRtc time) + 2 <
      valid.unixTime := by
  have days := valid.days_before
  have isSecond := valid.second
  rw [valid.datetime2timespec_plain, unixTime, Date.seconds, Date.seconds]
  omega

end RtcTime.Valid

def RoundsDown (seconds : Int) (unixTime : Nat) : Prop :=
  seconds ≤ unixTime ∧ (unixTime : Int) ≤ seconds + 2

variable {time : RtcTime}

def InitRight (valid : time.Valid) : Prop :=
  ∀ entry name attr,
    RoundsDown (statCreateTime (initDirEntry entry name attr time)) valid.unixTime ∧
      RoundsDown (statUpdateTime (initDirEntry entry name attr time)) valid.unixTime

def CloseRight (valid : time.Valid) : Prop :=
  ∀ entry blockStart size,
    RoundsDown (statUpdateTime (closeDirEntry entry blockStart size time)) valid.unixTime

def WritersAgree (time : RtcTime) : Prop :=
  ∀ entry name attr other blockStart size,
    (initDirEntry entry name attr time).writeTime.v =
        (closeDirEntry other blockStart size time).writeTime.v ∧
      (initDirEntry entry name attr time).writeDate.v =
        (closeDirEntry other blockStart size time).writeDate.v

def blankEntry : FatDirEntry :=
  ⟨fun _ => 0, 0, 0, 0, ⟨0, 0, 0⟩, ⟨0, 0, 0⟩, ⟨0, 0, 0⟩, 0, ⟨0, 0, 0⟩, ⟨0, 0, 0⟩, 0, 0⟩

theorem not_initRight (valid : time.Valid) : ¬ InitRight valid := by
  intro right
  have rounded := (right blankEntry ⟨[], List.not_mem_nil⟩ 0).1.2
  have early := valid.plain_early
  change _ ≤ datetime2timespec (FileDate.ofRtc time.year time) (FileTime.ofRtc time) + 2 at rounded
  omega

theorem not_writersAgree (valid : time.Valid) : ¬ WritersAgree time := by
  intro agree
  have dates := (agree blankEntry ⟨[], List.not_mem_nil⟩ 0 blankEntry 0 0).2
  have years := congrArg (fun v => (BitVec.setWidth 7 v).toNat) dates
  change (BitVec.setWidth 7 (_ ++ _)).toNat = (BitVec.setWidth 7 (_ ++ _)).toNat at years
  rw [BitVec.setWidth_append_eq_right, BitVec.setWidth_append_eq_right] at years
  change time.year.toNat % 128 = (time.year - UInt32.ofNat yearOffset).toNat % 128 at years
  have offset := valid.year_offset
  rw [← years, yearOffset] at offset
  omega

theorem closeRight_iff (valid : time.Valid) : CloseRight valid ↔ time.second < 32 := by
  have isSecond := valid.second
  have isLess : time.second < 32 ↔ time.second.toNat < 32 := UInt8.lt_iff_toNat_lt
  rw [isLess]
  constructor
  · intro right
    have rounded := (right blankEntry 0 0).2
    change _ ≤ datetime2timespec (FileDate.ofRtc (time.year - UInt32.ofNat yearOffset) time)
      (FileTime.ofRtc time) + 2 at rounded
    rw [valid.datetime2timespec_offset, RtcTime.Valid.unixTime, Date.seconds, Date.seconds]
      at rounded
    omega
  · intro early entry blockStart size
    have exact : statUpdateTime (closeDirEntry entry blockStart size time) = valid.unixTime := by
      refine valid.datetime2timespec_offset.trans ?_
      rw [Nat.mod_eq_of_lt early]
      rfl
    rw [exact, RoundsDown]
    omega

/-- No time is stored rightly by both writers: a new entry is always dated twenty years back, and
a closed file only keeps its time in the first 32 seconds of a minute. -/
theorem fatTimes_never (valid : time.Valid) :
    ¬ (InitRight valid ∧ CloseRight valid ∧ WritersAgree time) ∧
      ¬ InitRight valid ∧ ¬ WritersAgree time ∧ (CloseRight valid ↔ time.second < 32) := by
  have notInit := not_initRight valid
  exact ⟨fun right => notInit right.1, notInit, not_writersAgree valid, closeRight_iff valid⟩

def autumnTime : RtcTime :=
  ⟨40, 30, 15, 8, 10, 2023⟩

theorem autumnTime_valid : autumnTime.Valid := by
  constructor
  · decide
  · decide
  · decide
  · decide
  · decide
  · decide

theorem fatTimes_never_autumn :
    ¬ (InitRight autumnTime_valid ∧ CloseRight autumnTime_valid ∧ WritersAgree autumnTime) ∧
      ¬ InitRight autumnTime_valid ∧ ¬ WritersAgree autumnTime ∧
        (CloseRight autumnTime_valid ↔ autumnTime.second < 32) :=
  fatTimes_never autumnTime_valid

/-- The file is dated 2003 when it is made, and 32 seconds too early when it is closed. -/
theorem fatTimes_wrong_autumn :
    ¬ (InitRight autumnTime_valid ∧ CloseRight autumnTime_valid ∧ WritersAgree autumnTime) := by
  intro right
  have early := (closeRight_iff autumnTime_valid).mp right.2.1
  exact absurd early (by decide)

end CleanOS.Fs
