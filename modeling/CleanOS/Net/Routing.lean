import CleanOS.Net.Ip

/-!
# The route table

`route_add` and `route_find` of `kernel/net/ip.c`, and `netif_set_active` of
`kernel/net/netif.c`.  `route_find` takes the first route that matches: the comparison of the
masks is commented out.
-/

namespace CleanOS.Net

/-- `route_add`. -/
def routeAdd (net netMask nextHop : IpAddr) (netif : Netif) (rtList : List IpRouteEntry) :
    List IpRouteEntry :=
  rtList ++ [⟨net, netMask, nextHop, netif⟩]

/-- What `netif_set_active` adds for an interface that opens.  The second route is meant for the
address `0xFFFFFFFF`, which is written to `ip` and not to `desc`. -/
def netifSetActive (netif : Netif) (rtList : List IpRouteEntry) : List IpRouteEntry :=
  let ip := netif.ipAddr &&& netif.netMask
  routeAdd ip netif.netMask 0 netif (routeAdd ip netif.netMask 0 netif rtList)

def addRoutes (routes : List IpRouteEntry) : List IpRouteEntry :=
  routes.foldl (fun rtList route =>
    routeAdd route.net route.netMask route.nextHop route.netif rtList) []

def activate (netifs : List Netif) : List IpRouteEntry :=
  netifs.foldl (fun rtList netif => netifSetActive netif rtList) []

/-- The number of one bits of the mask: the `mask_1_cnt` of the comparison left out. -/
def IpRouteEntry.mask1Cnt (entry : IpRouteEntry) : Nat :=
  (List.range 32).countP entry.netMask.toNat.testBit

def IpRouteEntry.Matches (entry : IpRouteEntry) (dest : IpAddr) : Prop :=
  ipaddrGetNet dest entry.netMask = entry.net

instance (entry : IpRouteEntry) (dest : IpAddr) : Decidable (entry.Matches dest) :=
  inferInstanceAs (Decidable (_ = _))

/-- The mask with the first `len` bits of an address, of which the first byte is the lowest. -/
def prefixMask (len : Nat) : IpAddr :=
  ipAddrFromBuf ((List.range 4).map fun i =>
    (256 - 256 / 2 ^ min 8 (len - 8 * i)).toUInt8)

def IpRouteEntry.Contiguous (entry : IpRouteEntry) : Prop :=
  ∃ len, len ≤ 32 ∧ entry.netMask = prefixMask len

/-- A route that matches and has the longest mask of those that do, or none if none does. -/
def LongestMatch (dest : IpAddr) (table : List IpRouteEntry) : Option IpRouteEntry → Prop
  | none => ∀ entry ∈ table, ¬ entry.Matches dest
  | some entry => entry ∈ table ∧ entry.Matches dest ∧
      ∀ other ∈ table, other.Matches dest → other.mask1Cnt ≤ entry.mask1Cnt

/-- No route that matches stands before a narrower one that matches too, unless before both
there is one that matches and is at least as narrow. -/
def NarrowFirst (dest : IpAddr) (table : List IpRouteEntry) : Prop :=
  ∀ front broad between narrow rest, table = front ++ broad :: (between ++ narrow :: rest) →
    broad.Matches dest → narrow.Matches dest → broad.mask1Cnt < narrow.mask1Cnt →
    ∃ earlier ∈ front, earlier.Matches dest ∧ narrow.mask1Cnt ≤ earlier.mask1Cnt

def OneLength (dest : IpAddr) (table : List IpRouteEntry) : Prop :=
  ∀ entry ∈ table, ∀ other ∈ table, entry.Matches dest → other.Matches dest →
    entry.mask1Cnt = other.mask1Cnt

def SameNet : Option IpRouteEntry → Option IpRouteEntry → Prop
  | none, none => True
  | some entry, some other => entry.net = other.net ∧ entry.netMask = other.netMask
  | _, _ => False

def Netif.routes (netif : Netif) : List IpRouteEntry :=
  netifSetActive netif []

def Netif.route (netif : Netif) : IpRouteEntry :=
  ⟨netif.ipAddr &&& netif.netMask, netif.netMask, 0, netif⟩

section Find

variable {dest : IpAddr} {table other : List IpRouteEntry} {entry route : IpRouteEntry}

theorem addRoutes_eq (routes : List IpRouteEntry) : addRoutes routes = routes := by
  have appends (rtList : List IpRouteEntry) : routes.foldl (fun rtList route =>
      routeAdd route.net route.netMask route.nextHop route.netif rtList) rtList =
        rtList ++ routes := by
    induction routes generalizing rtList with
    | nil => exact (List.append_nil rtList).symm
    | cons route routes ih =>
        rw [List.foldl_cons, ih, routeAdd, List.append_assoc]
        rfl
  exact appends []

theorem activate_eq (netifs : List Netif) : activate netifs = netifs.flatMap Netif.routes := by
  have appends (rtList : List IpRouteEntry) :
      netifs.foldl (fun rtList netif => netifSetActive netif rtList) rtList =
        rtList ++ netifs.flatMap Netif.routes := by
    induction netifs generalizing rtList with
    | nil => exact (List.append_nil rtList).symm
    | cons netif netifs ih =>
        rw [List.foldl_cons, ih, List.flatMap_cons, ← List.append_assoc]
        congr 1
        exact List.append_assoc _ _ _
  exact appends []

theorem routeFind_eq_some (isFound : routeFind dest table = some entry) :
    entry.Matches dest ∧ ∃ front rest, table = front ++ entry :: rest ∧
      ∀ earlier ∈ front, ¬ earlier.Matches dest := by
  obtain ⟨isMatch, front, rest, split, before⟩ := List.find?_eq_some_iff_append.mp isFound
  refine ⟨of_decide_eq_true isMatch, front, rest, split, ?_⟩
  intro earlier member isEarlier
  have pos : decide (ipaddrGetNet dest earlier.netMask = earlier.net) = true :=
    decide_eq_true isEarlier
  have noMatch := before earlier member
  rw [pos] at noMatch
  cases noMatch

theorem routeFind_eq_none (isNone : routeFind dest table = none) :
    ∀ entry ∈ table, ¬ entry.Matches dest := by
  intro entry member isMatch
  exact List.find?_eq_none.mp isNone entry member (decide_eq_true isMatch)

theorem routeFind_longest : LongestMatch dest table (routeFind dest table) ↔
    NarrowFirst dest table := by
  cases isFound : routeFind dest table with
  | none =>
      apply iff_of_true (routeFind_eq_none isFound)
      intro front broad between narrow rest split isMatch
      have member : broad ∈ table := split ▸ List.mem_append_right _ List.mem_cons_self
      exact absurd isMatch (routeFind_eq_none isFound broad member)
  | some entry =>
      obtain ⟨isMatch, front, rest, split, before⟩ := routeFind_eq_some isFound
      have member : entry ∈ table := split ▸ List.mem_append_right _ List.mem_cons_self
      constructor
      · rintro ⟨-, -, longest⟩ first broad between narrow last splitPair broadMatch narrowMatch less
        have narrowMember : narrow ∈ table := by
          rw [splitPair]
          apply List.mem_append_right
          exact List.mem_cons_of_mem _ (List.mem_append_right _ List.mem_cons_self)
        have least := longest narrow narrowMember narrowMatch
        refine ⟨entry, ?_, isMatch, least⟩
        -- the broad route matches, so the first match is not behind it
        have ofPair : routeFind dest (first ++ broad :: (between ++ narrow :: last)) =
            some entry := splitPair ▸ isFound
        rw [routeFind, List.find?_append] at ofPair
        cases inFirst : first.find? fun entry => ipaddrGetNet dest entry.netMask = entry.net with
        | some earlier =>
            rw [inFirst, Option.some_or, Option.some.injEq] at ofPair
            exact ofPair ▸ List.mem_of_find?_eq_some inFirst
        | none =>
            have pos : decide (ipaddrGetNet dest broad.netMask = broad.net) = true :=
              decide_eq_true broadMatch
            rw [inFirst, Option.none_or, List.find?_cons, pos, Option.some.injEq] at ofPair
            rw [ofPair] at less
            omega
      · intro narrowFirst
        refine ⟨member, isMatch, ?_⟩
        intro other otherMember otherMatch
        by_contra narrower
        rw [split] at otherMember
        rcases List.mem_append.mp otherMember with inFront | behind
        · exact before other inFront otherMatch
        · rcases List.mem_cons.mp behind with rfl | inRest
          · exact narrower (Nat.le_refl _)
          · obtain ⟨between, last, restSplit⟩ := List.append_of_mem inRest
            rw [restSplit] at split
            obtain ⟨earlier, inFront, isEarlier, -⟩ :=
              narrowFirst front entry between other last split isMatch otherMatch (by omega)
            exact before earlier inFront isEarlier

theorem prefixMask_ones : ∀ len : Fin 33,
    (List.range 32).countP (prefixMask len).toNat.testBit = len := by
  decide

theorem sameNet_of_length (isContiguous : entry.Contiguous) (isContiguous' : route.Contiguous)
    (isMatch : entry.Matches dest) (isMatch' : route.Matches dest)
    (same : entry.mask1Cnt = route.mask1Cnt) : SameNet (some entry) (some route) := by
  obtain ⟨len, isPrefix, mask⟩ := isContiguous
  obtain ⟨len', isPrefix', mask'⟩ := isContiguous'
  have ones := prefixMask_ones ⟨len, by omega⟩
  have ones' := prefixMask_ones ⟨len', by omega⟩
  rw [IpRouteEntry.mask1Cnt, IpRouteEntry.mask1Cnt, mask, mask', ones, ones'] at same
  have sameLen : len = len' := same
  have sameMask : entry.netMask = route.netMask := by
    rw [mask, mask', sameLen]
  apply And.intro _ sameMask
  rw [← isMatch, ← isMatch', sameMask]

theorem routeFind_sameNet (isContiguous : ∀ entry ∈ table, entry.Contiguous)
    (sameMembers : ∀ entry, entry ∈ other ↔ entry ∈ table) (oneLength : OneLength dest table) :
    SameNet (routeFind dest table) (routeFind dest other) := by
  cases isFound : routeFind dest table with
  | none =>
      cases isFound' : routeFind dest other with
      | none => trivial
      | some route =>
          have member := (sameMembers route).mp (List.mem_of_find?_eq_some isFound')
          exact routeFind_eq_none isFound route member (routeFind_eq_some isFound').left
  | some entry =>
      have member := List.mem_of_find?_eq_some isFound
      have isMatch := (routeFind_eq_some isFound).left
      cases isFound' : routeFind dest other with
      | none =>
          exact routeFind_eq_none isFound' entry ((sameMembers entry).mpr member) isMatch
      | some route =>
          have member' := (sameMembers route).mp (List.mem_of_find?_eq_some isFound')
          have isMatch' := (routeFind_eq_some isFound').left
          exact sameNet_of_length (isContiguous entry member) (isContiguous route member')
            isMatch isMatch' (oneLength entry member route member' isMatch isMatch')

theorem oneLength_of_sameNet {found : Option IpRouteEntry}
    (asFound : ∀ entry ∈ table, entry.Matches dest → SameNet found (some entry)) :
    OneLength dest table := by
  intro entry member route member' isMatch isMatch'
  cases found with
  | none => exact (asFound entry member isMatch).elim
  | some found =>
      have mask : found.netMask = entry.netMask := (asFound entry member isMatch).right
      have mask' : found.netMask = route.netMask := (asFound route member' isMatch').right
      rw [IpRouteEntry.mask1Cnt, IpRouteEntry.mask1Cnt, ← mask, mask']

theorem routeFind_head (isMatch : entry.Matches dest) :
    routeFind dest (entry :: table) = some entry := by
  have pos : decide (ipaddrGetNet dest entry.netMask = entry.net) = true := decide_eq_true isMatch
  rw [routeFind, List.find?_cons, pos]

theorem routeFind_orders (isContiguous : ∀ entry ∈ table, entry.Contiguous) :
    (∀ other, other.Perm table → SameNet (routeFind dest table) (routeFind dest other)) ↔
      OneLength dest table := by
  constructor
  · intro anyOrder
    apply oneLength_of_sameNet
    intro entry member isMatch
    obtain ⟨front, rest, split⟩ := List.append_of_mem member
    have moved : (entry :: (front ++ rest)).Perm table := split ▸ List.perm_middle.symm
    exact routeFind_head isMatch ▸ anyOrder _ moved
  · intro oneLength other isPerm
    exact routeFind_sameNet isContiguous (fun _ => isPerm.mem_iff) oneLength

theorem Netif.routes_eq (netif : Netif) : netif.routes = [netif.route, netif.route] :=
  rfl

theorem mem_activate {netifs : List Netif} :
    entry ∈ activate netifs ↔ ∃ netif ∈ netifs, entry = netif.route := by
  rw [activate_eq, List.mem_flatMap]
  apply exists_congr
  intro netif
  rw [Netif.routes_eq]
  simp

theorem routeFind_activate_head {netif : Netif} (netifs : List Netif)
    (isMatch : netif.route.Matches dest) :
    routeFind dest (activate (netif :: netifs)) = some netif.route := by
  rw [activate_eq, List.flatMap_cons, Netif.routes_eq]
  exact routeFind_head isMatch

theorem activate_orders {netifs : List Netif}
    (isContiguous : ∀ netif ∈ netifs, netif.route.Contiguous) :
    (∀ other, other.Perm netifs →
      SameNet (routeFind dest (activate netifs)) (routeFind dest (activate other))) ↔
      OneLength dest (activate netifs) := by
  constructor
  · intro anyOrder
    apply oneLength_of_sameNet
    intro entry member isMatch
    obtain ⟨netif, isMember, rfl⟩ := mem_activate.mp member
    obtain ⟨front, rest, split⟩ := List.append_of_mem isMember
    have moved : (netif :: (front ++ rest)).Perm netifs := split ▸ List.perm_middle.symm
    exact routeFind_activate_head (front ++ rest) isMatch ▸ anyOrder _ moved
  · intro oneLength other isPerm
    have contiguous : ∀ entry ∈ activate netifs, entry.Contiguous := by
      intro entry member
      obtain ⟨netif, isMember, rfl⟩ := mem_activate.mp member
      exact isContiguous netif isMember
    apply routeFind_sameNet contiguous _ oneLength
    intro entry
    rw [mem_activate, mem_activate]
    apply exists_congr
    intro netif
    rw [isPerm.mem_iff]

end Find

/-- The longest match is found exactly if no broader route stands before a narrower one, and the
network it leads to is independent of the order of the routes, or of the interfaces, exactly if
all routes that match have masks of one length. -/
theorem routeFind_right (dest : IpAddr) :
    (∀ routes, LongestMatch dest (addRoutes routes) (routeFind dest (addRoutes routes)) ↔
      NarrowFirst dest routes) ∧
    (∀ routes, (∀ entry ∈ routes, entry.Contiguous) →
      ((∀ other, other.Perm routes →
        SameNet (routeFind dest (addRoutes routes)) (routeFind dest (addRoutes other))) ↔
        OneLength dest routes)) ∧
    (∀ netifs : List Netif, (∀ netif ∈ netifs, netif.route.Contiguous) →
      ((∀ other, other.Perm netifs →
        SameNet (routeFind dest (activate netifs)) (routeFind dest (activate other))) ↔
        OneLength dest (activate netifs))) := by
  refine ⟨?_, ?_, ?_⟩
  · intro routes
    rw [addRoutes_eq]
    exact routeFind_longest
  · intro routes isContiguous
    rw [addRoutes_eq]
    simp only [addRoutes_eq]
    exact routeFind_orders isContiguous
  · intro netifs isContiguous
    exact activate_orders isContiguous

def broadNetif : Netif :=
  ⟨0x0100000a, prefixMask 8, 0⟩

def narrowNetif : Netif :=
  ⟨0x0100010a, prefixMask 16, 0⟩

theorem routeFind_right_sample :
    SameNet (routeFind 0x05000b0a (activate [broadNetif, narrowNetif]))
      (routeFind 0x05000b0a (activate [narrowNetif, broadNetif])) ∧
    LongestMatch 0x0500010a [narrowNetif.route, broadNetif.route]
      (some narrowNetif.route) := by
  have contiguous : ∀ netif ∈ [broadNetif, narrowNetif], netif.route.Contiguous := by
    intro netif member
    rcases List.mem_pair.mp member with rfl | rfl
    · exact ⟨8, by decide, rfl⟩
    · exact ⟨16, by decide, rfl⟩
  constructor
  · have orders := (routeFind_right 0x05000b0a).right.right _ contiguous
    apply orders.mpr _ _ (List.Perm.swap _ _ _)
    intro entry member other member' isMatch isMatch'
    obtain ⟨netif, isMember, rfl⟩ := mem_activate.mp member
    obtain ⟨netif', isMember', rfl⟩ := mem_activate.mp member'
    have outside : ¬ narrowNetif.route.Matches 0x05000b0a := by
      decide
    rcases List.mem_pair.mp isMember with rfl | rfl
    · rcases List.mem_pair.mp isMember' with rfl | rfl
      · rfl
      · exact absurd isMatch' outside
    · exact absurd isMatch outside
  · have longest := (routeFind_right 0x0500010a).left [narrowNetif.route, broadNetif.route]
    rw [addRoutes_eq] at longest
    have isFound : routeFind 0x0500010a [narrowNetif.route, broadNetif.route] =
        some narrowNetif.route := by
      apply routeFind_head
      decide
    rw [isFound] at longest
    apply longest.mpr
    intro front broad between narrow rest split _ _ less
    have size := congrArg List.length split
    cases front with
    | nil =>
        obtain ⟨rfl, behind⟩ := List.cons.inj split
        have member : narrow ∈ [broadNetif.route] :=
          behind ▸ List.mem_append_right _ List.mem_cons_self
        rw [List.mem_singleton.mp member] at less
        exact absurd less (by decide)
    | cons =>
        simp only [List.length_cons, List.length_nil, List.length_append] at size
        omega

/-- The broad interface comes first: its route is taken for an address of the narrow one, and
the order of activation decides. -/
theorem broad_route_taken :
    ∃ netifs other : List Netif, other.Perm netifs ∧
      (∀ netif ∈ netifs, netif.route.Contiguous) ∧ ∃ dest,
        ¬ LongestMatch dest (activate netifs) (routeFind dest (activate netifs)) ∧
        ¬ SameNet (routeFind dest (activate netifs)) (routeFind dest (activate other)) := by
  have broadMatch : broadNetif.route.Matches 0x0500010a := by
    decide
  have narrowMatch : narrowNetif.route.Matches 0x0500010a := by
    decide
  have found := routeFind_activate_head [narrowNetif] broadMatch
  have found' := routeFind_activate_head [broadNetif] narrowMatch
  refine ⟨[broadNetif, narrowNetif], [narrowNetif, broadNetif], List.Perm.swap _ _ _, ?_,
    0x0500010a, ?_, ?_⟩
  · intro netif member
    rcases List.mem_pair.mp member with rfl | rfl
    · exact ⟨8, by decide, rfl⟩
    · exact ⟨16, by decide, rfl⟩
  · intro longest
    rw [found] at longest
    have narrowMember : narrowNetif.route ∈ activate [broadNetif, narrowNetif] := by
      apply mem_activate.mpr
      exact ⟨narrowNetif, by simp, rfl⟩
    have least := longest.right.right narrowNetif.route narrowMember narrowMatch
    exact absurd least (by decide)
  · rw [found, found']
    intro same
    exact absurd same.left (by decide)

end CleanOS.Net
