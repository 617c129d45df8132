import ChatReactor.Lib.ByteReader
import ChatReactor.Lib.NetOrder
import ChatReactor.TimeZoneProofs

/-!
# The zone file (`TimeZone.cc:98-216`, `:253-263`)

| here | there |
| --- | --- |
| `readBytes`, `readInt32`, `readUInt8` | the members of `detail::File` |
| `readZone`, `readBlocks` | the `try` block of `detail::readTimeZoneFile` |
| `readTimeZoneFile` | the function, with what it prints |
| `TimeZone.ofFile` | the constructor that takes a file name |
| `Contents` | what a file holds, block by block (`tzfile(5)`, version 1) |

A file is the list of its bytes, or `none` if `fopen` fails. `none` as a result is an array of negative size or a vector
indexed out of range; there is memory for the rest. A `logic_error` is thrown by the members of `File`, for a bad head, and
by `reserve` (a `length_error`) for a negative count.

`readTimeZoneFile` catches it, prints it and returns `true`, as it does without a file. So the constructor keeps what has
been read until then, and `valid()` is true whatever has happened (`ofFile_valid`). It is right exactly if the file can be
read to the end and its indices are in range (`valid_usable_iff`), as far as a search among the transitions can come to them
(`FoundAt`): their times need not be in order.
-/

namespace ChatReactor

open ByteReader LowerBound NetOrder

namespace ZoneFile

/-- A negative `n` is the size of an array. -/
def readBytes (n : Int32) : Reader Data (List UInt8) := do
  ofOption (check (0 ≤ n.toInt))
  takeBytes n.toInt.toNat "no enough data"

def readInt32 : Reader Data Int32 := do
  let x ← takeBytes 4 "bad int32_t data"
  return (UInt32.ofNat (netValue x)).toInt32

def readUInt8 : Reader Data UInt8 := do
  let x ← takeBytes 1 "bad uint8_t data"
  return UInt8.ofNat (netValue x)

/-- A local time type as it stands in the file. -/
structure LocalType where
  gmtoff : Int32
  isdst : UInt8
  abbrind : UInt8
  deriving DecidableEq

def LocalType.localtime (type : LocalType) : Localtime := ⟨type.gmtoff.toInt, type.isdst ≠ 0, type.abbrind.toNat⟩

def readLocalType : Reader Data LocalType := do
  let gmtoff ← readInt32
  let isdst ← readUInt8
  let abbrind ← readUInt8
  let type : LocalType := ⟨gmtoff, isdst, abbrind⟩
  update fun data => { data with localtimes := data.localtimes ++ [type.localtime] }
  return type

/-- The loop over the transition times and the indices of their local times. -/
def pushTransitions : List (Int32 × UInt8) → Reader Data Unit
  | [] => return ()
  | (gmttime, localIdx) :: rest => do
    let data ← getStore
    let loc ← ofOption data.localtimes[localIdx.toNat]?
    let localtime := gmttime.toInt + loc.gmtOffset
    update fun data => { data with transitions := data.transitions ++ [⟨gmttime.toInt, localtime, localIdx.toNat⟩] }
    pushTransitions rest

/-- "TZif" -/
def magic : List UInt8 := [84, 90, 105, 102]

/-- The second half of the `try` block. The loop over the leap seconds does nothing. -/
def readBlocks (timecnt typecnt charcnt : Int32) : Reader Data Unit := do
  require (0 ≤ timecnt.toInt) "vector::reserve"
  let trans ← repeatN readInt32 timecnt.toInt.toNat
  let localtimes ← repeatN readUInt8 timecnt.toInt.toNat
  let _ ← repeatN readLocalType typecnt.toInt.toNat
  pushTransitions (trans.zip localtimes)
  let abbreviation ← readBytes charcnt
  update fun data => { data with abbreviation := abbreviation }

def readZone : Reader Data Unit := do
  let head ← readBytes 4
  require (head = magic) "bad head"
  let _version ← readBytes 1
  let _ ← readBytes 15
  let _isgmtcnt ← readInt32
  let _isstdcnt ← readInt32
  let _leapcnt ← readInt32
  let timecnt ← readInt32
  let typecnt ← readInt32
  let charcnt ← readInt32
  readBlocks timecnt typecnt charcnt

def empty : Data := ⟨[], [], []⟩

/-- Its result, the data and what goes to `stderr`. -/
def readTimeZoneFile (zonefile : Option (List UInt8)) (data : Data) : Option (Bool × Data × List String) :=
  match zonefile with
  | none => some (true, data, [])
  | some bytes => do
    let (result, _, data) ← readZone (bytes, data)
    match result with
    | .ok _ => return (true, data, [])
    | .error what => return (true, data, [what])

/-- Reading the file ends with an exception. -/
def Throws (zonefile : Option (List UInt8)) : Prop :=
  ∃ bytes, zonefile = some bytes ∧ ∃ what s, readZone (bytes, empty) = some (.error what, s)

end ZoneFile

open ZoneFile

def TimeZone.ofFile (zonefile : Option (List UInt8)) : Option TimeZone := do
  let (ok, data, _) ← readTimeZoneFile zonefile empty
  return ⟨if ok then some data else none⟩

namespace ZoneFile

/-! ## What a file holds -/

/-- Big-endian. -/
def be32 (x : Int32) : List UInt8 := netBytes 4 x.toUInt32.toNat

def LocalType.image (type : LocalType) : List UInt8 := be32 type.gmtoff ++ [type.isdst, type.abbrind]

/-- The transition that is made of a time and an index. -/
def transitionOf (localtimes : List Localtime) (x : Int32 × UInt8) : Transition :=
  ⟨x.1.toInt, x.1.toInt + (localtimes[x.2.toNat]?.elim 0 (·.gmtOffset)), x.2.toNat⟩

/-- The blocks behind the counts. A negative `typecnt` counts nothing. -/
structure Blocks (timecnt typecnt charcnt : Int32) where
  /-- Times with the indices of their types. -/
  transitions : List (Int32 × UInt8)
  types : List LocalType
  chars : List UInt8
  transitions_length : (transitions.length : Int) = timecnt.toInt
  types_length : types.length = typecnt.toInt.toNat
  chars_length : (chars.length : Int) = charcnt.toInt

namespace Blocks
variable {timecnt typecnt charcnt : Int32}

def encode (z : Blocks timecnt typecnt charcnt) : List UInt8 :=
  (z.transitions.map (·.1)).flatMap be32 ++ z.transitions.map (·.2) ++ z.types.flatMap LocalType.image ++ z.chars

def data (z : Blocks timecnt typecnt charcnt) : Data :=
  let localtimes := z.types.map LocalType.localtime
  ⟨z.transitions.map (transitionOf localtimes), localtimes, z.chars⟩

end Blocks

/-- A file that can be read to the end. -/
structure Contents where
  version : UInt8
  reserved : List UInt8
  isgmtcnt : Int32
  isstdcnt : Int32
  leapcnt : Int32
  timecnt : Int32
  typecnt : Int32
  charcnt : Int32
  blocks : Blocks timecnt typecnt charcnt
  reserved_length : reserved.length = 15

def Contents.encode (z : Contents) : List UInt8 :=
  magic ++ [z.version] ++ z.reserved ++ be32 z.isgmtcnt ++ be32 z.isstdcnt ++ be32 z.leapcnt ++ be32 z.timecnt ++
    be32 z.typecnt ++ be32 z.charcnt ++ z.blocks.encode

/-! ## The readers -/

section
variable {β : Type} {input : List UInt8} {data : Data} {b : β} {s' : List UInt8 × Data}

theorem returns_readBytes {n : Int32} {f : List UInt8 → Reader Data β} :
    Returns (readBytes n >>= f) (input, data) b s' ↔ ∃ bytes rest, (bytes.length : Int) = n.toInt ∧
      input = bytes ++ rest ∧ Returns (f bytes) (rest, data) b s' := by
  simp only [readBytes, bind_assoc, returns_ofOption, check_eq_some, returns_takeBytes]
  constructor
  · rintro ⟨-, hn, bytes, rest, hlen, hrest⟩
    exact ⟨bytes, rest, by omega, hrest⟩
  · rintro ⟨bytes, rest, hlen, hrest⟩
    exact ⟨(), by omega, bytes, rest, by omega, hrest⟩

theorem reads_readInt32 : Reads readInt32 be32 (fun data _ => data) := by
  refine ⟨fun {β f input data b s'} => ?_⟩
  simp only [readInt32, be32, bind_assoc, pure_bind, returns_takeBytes]
  constructor
  · rintro ⟨bytes, rest, hlen, rfl, hf⟩
    have hlt := netValue_lt bytes
    have hnet := netBytes_netValue bytes
    rw [hlen] at hlt hnet
    refine ⟨_, rest, ?_, hf⟩
    rw [UInt32.toUInt32_toInt32, UInt32.toNat_ofNat_of_lt' hlt, hnet]
  · rintro ⟨x, rest, rfl, hf⟩
    have hlt := x.toUInt32.toNat_lt
    refine ⟨_, rest, length_netBytes 4 _, rfl, ?_⟩
    rw [netValue_netBytes, Nat.mod_eq_of_lt (by omega)]
    simpa using hf

theorem reads_readUInt8 : Reads readUInt8 (fun x => [x]) (fun data _ => data) := by
  refine ⟨fun {β f input data b s'} => ?_⟩
  simp only [readUInt8, bind_assoc, pure_bind, returns_takeBytes]
  constructor
  · rintro ⟨bytes, rest, hlen, rfl, hf⟩
    obtain ⟨x, rfl⟩ := List.length_eq_one_iff.1 hlen
    exact ⟨x, rest, rfl, by simpa [netValue] using hf⟩
  · rintro ⟨x, rest, rfl, hf⟩
    exact ⟨[x], rest, rfl, rfl, by simpa [netValue] using hf⟩

theorem reads_readLocalType : Reads readLocalType LocalType.image
    (fun data type => { data with localtimes := data.localtimes ++ [type.localtime] }) := by
  refine ⟨fun {β f input data b s'} => ?_⟩
  simp only [readLocalType, bind_assoc, pure_bind]
  simp only [reads_readInt32.bind_iff, reads_readUInt8.bind_iff, returns_update]
  constructor
  · rintro ⟨gmtoff, -, rfl, isdst, -, rfl, abbrind, rest, rfl, hf⟩
    exact ⟨⟨gmtoff, isdst, abbrind⟩, rest, by simp [LocalType.image], hf⟩
  · rintro ⟨⟨gmtoff, isdst, abbrind⟩, rest, rfl, hf⟩
    exact ⟨gmtoff, _, by simp [LocalType.image], isdst, _, rfl, abbrind, rest, rfl, hf⟩

theorem foldl_localtimes (types : List LocalType) (data : Data) :
    types.foldl (fun data type => { data with localtimes := data.localtimes ++ [type.localtime] }) data =
      { data with localtimes := data.localtimes ++ types.map LocalType.localtime } := by
  induction types generalizing data with
  | nil => simp
  | cons type types ih => simp [ih]

theorem returns_pushTransitions {xs : List (Int32 × UInt8)} {f : Unit → Reader Data β} :
    Returns (pushTransitions xs >>= f) (input, data) b s' ↔
      (∀ x ∈ xs, x.2.toNat < data.localtimes.length) ∧ Returns (f ())
        (input, { data with transitions := data.transitions ++ xs.map (transitionOf data.localtimes) }) b s' := by
  induction xs generalizing data with
  | nil => simp [pushTransitions]
  | cons x xs ih =>
    obtain ⟨gmttime, localIdx⟩ := x
    simp only [pushTransitions, bind_assoc, returns_getStore, returns_ofOption, returns_update, ih]
    constructor
    · rintro ⟨loc, hloc, hidx, hf⟩
      have hlt := (List.getElem?_eq_some_iff.1 hloc).1
      refine ⟨fun x hx => ?_, ?_⟩
      · obtain rfl | hx := List.mem_cons.1 hx
        · exact hlt
        · exact hidx x hx
      · simpa [transitionOf, hloc] using hf
    · rintro ⟨hidx, hf⟩
      have hloc := List.getElem?_eq_getElem (hidx _ List.mem_cons_self)
      refine ⟨_, hloc, fun x hx => hidx x (List.mem_cons_of_mem _ hx), ?_⟩
      simpa [transitionOf, hloc] using hf

end

theorem zip_transitions (l : List (Int32 × UInt8)) : (l.map (·.1)).zip (l.map (·.2)) = l := by
  rw [List.zip_map', List.map_id'']
  exact fun _ => rfl

theorem returns_readBlocks {timecnt typecnt charcnt : Int32} {input rest : List UInt8} {u : Unit} {data : Data} :
    Returns (readBlocks timecnt typecnt charcnt) (input, empty) u (rest, data) ↔
      ∃ z : Blocks timecnt typecnt charcnt, input = z.encode ++ rest ∧
        (∀ x ∈ z.transitions, x.2.toNat < z.types.length) ∧ z.data = data := by
  simp only [readBlocks, returns_readBytes, returns_require, reads_readInt32.repeatN_iff, reads_readUInt8.repeatN_iff,
    reads_readLocalType.repeatN_iff, returns_pushTransitions, List.flatMap_singleton', List.foldl_fixed,
    foldl_localtimes, decide_eq_true_eq]
  constructor
  · rintro ⟨htimecnt, times, _, htimes, rfl, localtimes, _, hlocaltimes, rfl, types, _, htypes, rfl, hidx, chars, _,
      hchars, rfl, hend⟩
    have hlen : times.length = localtimes.length := htimes.trans hlocaltimes.symm
    obtain ⟨rfl, rfl⟩ : _ = rest ∧ _ = data := by simpa [Returns, update] using hend
    refine ⟨⟨times.zip localtimes, types, chars, ?_, htypes, hchars⟩, ?_, by simpa [empty] using hidx, rfl⟩
    · rw [List.length_zip]
      omega
    · simp [Blocks.encode, List.map_fst_zip hlen.le, List.map_snd_zip hlen.ge]
  · rintro ⟨z, rfl, hidx, rfl⟩
    have htimes := z.transitions_length
    simp only [Blocks.encode, List.append_assoc]
    refine ⟨by omega, z.transitions.map (·.1), _, by rw [List.length_map]; omega, rfl, z.transitions.map (·.2), _,
      by rw [List.length_map]; omega, rfl, z.types, _, z.types_length, rfl, ?_, z.chars, _, z.chars_length, rfl, ?_⟩
    · simpa [zip_transitions, empty] using hidx
    · rw [zip_transitions]
      rfl

/-- The file is read to the end exactly if it begins with contents whose transitions have their types. -/
theorem returns_readZone {input rest : List UInt8} {u : Unit} {data : Data} :
    Returns readZone (input, empty) u (rest, data) ↔ ∃ z : Contents, input = z.encode ++ rest ∧
      (∀ x ∈ z.blocks.transitions, x.2.toNat < z.blocks.types.length) ∧ z.blocks.data = data := by
  simp only [readZone, returns_readBytes, returns_require, reads_readInt32.bind_iff, returns_readBlocks,
    decide_eq_true_eq]
  constructor
  · rintro ⟨head, _, -, rfl, rfl, version, _, hversion, rfl, reserved, _, hreserved, rfl, isgmtcnt, _, rfl,
      isstdcnt, _, rfl, leapcnt, _, rfl, timecnt, _, rfl, typecnt, _, rfl, charcnt, _, rfl, blocks, rfl, hblocks⟩
    obtain ⟨version, rfl⟩ := List.length_eq_one_iff.1 (Int.ofNat.inj hversion)
    refine ⟨⟨version, reserved, isgmtcnt, isstdcnt, leapcnt, timecnt, typecnt, charcnt, blocks, Int.ofNat.inj hreserved⟩,
      ?_, hblocks⟩
    simp [Contents.encode]
  · rintro ⟨z, rfl, hblocks⟩
    simp only [Contents.encode, List.append_assoc]
    exact ⟨magic, _, rfl, rfl, rfl, [z.version], _, rfl, rfl, z.reserved, _, congrArg Int.ofNat z.reserved_length, rfl,
      z.isgmtcnt, _, rfl, z.isstdcnt, _, rfl, z.leapcnt, _, rfl, z.timecnt, _, rfl, z.typecnt, _, rfl, z.charcnt, _, rfl,
      z.blocks, rfl, hblocks⟩

end ZoneFile

/-! ## Using the data -/

/-- Where `findLocaltime` comes to among transitions with such keys: at the one with the time, or else before the place where
`std::lower_bound` ends. -/
def FoundAt {α : Type} (key : α → Int) (l : List α) (time : Int) (i : Nat) : Prop :=
  (∀ first ∈ l.head?, key first ≤ time) ∧
    if (l[lowerBound (fun x => key x < time) l]?).map key = some time then i = lowerBound (fun x => key x < time) l
    else i + 1 = lowerBound (fun x => key x < time) l

theorem FoundAt.unique {α : Type} {key : α → Int} {l : List α} {time : Int} {i j : Nat} (hi : FoundAt key l time i)
    (hj : FoundAt key l time j) : i = j := by
  have hi := hi.2
  have hj := hj.2
  split_ifs at hi hj <;> omega

theorem foundAt_map {α β : Type} (f : β → α) (key : α → Int) (l : List β) (time : Int) (i : Nat) :
    FoundAt key (l.map f) time i ↔ FoundAt (fun x => key (f x)) l time i := by
  simp only [FoundAt, lowerBound_map, List.getElem?_map, Option.map_map, List.head?_map, Option.mem_map, forall_exists_index,
    and_imp, forall_apply_eq_imp_iff₂]
  rfl

/-- Every index that the members use is in range. The transitions need not be in order. -/
structure Data.Usable (data : Data) : Prop extends data.InRange where
  arrb_le : ∀ time loc, findLocaltime data ⟨time, 0, 0⟩ ⟨true⟩ = some loc → loc.arrbIdx ≤ data.abbreviation.length

section
variable {data : Data}

/-- From the first transition on, the assert holds wherever the binary search ends, and the local time is that of the
transition found. -/
theorem findLocaltime_found {sentry : Transition} {comp : Comp} (h : ¬ data.transitions.head?.all (comp.less sentry)) :
    ∃ i tr, FoundAt comp.key data.transitions (comp.key sentry) i ∧ data.transitions[i]? = some tr ∧
      findLocaltime data sentry comp = data.localtimeOf tr := by
  have hfirst : ∀ first ∈ data.transitions.head?, comp.key first ≤ comp.key sentry := by
    intro first hmem
    rw [Option.mem_def] at hmem
    simpa [hmem, Comp.less] using h
  have hcut := lowerBound_cut (fun tr => comp.less tr sentry) data.transitions
  have hless : (fun tr => decide (comp.key tr < comp.key sentry)) = fun tr => comp.less tr sentry := rfl
  simp only [findLocaltime, if_neg h, FoundAt, hless]
  generalize lowerBound (fun tr => comp.less tr sentry) data.transitions = r at hcut ⊢
  cases htr : data.transitions[r]? with
  | some tr =>
    by_cases hequal : comp.key tr = comp.key sentry
    · refine ⟨r, tr, ⟨hfirst, ?_⟩, htr, ?_⟩
      · rw [Option.map_some, if_pos (congrArg some hequal)]
      · simp [Comp.equal, hequal]
    · have hr : r ≠ 0 := cut_ne_zero hcut h htr (by simpa [Comp.equal] using Ne.symm hequal)
      have hlt : r - 1 < data.transitions.length := by
        have := hcut.le_length
        omega
      refine ⟨r - 1, data.transitions[r - 1], ⟨hfirst, ?_⟩, List.getElem?_eq_getElem hlt, ?_⟩
      · rw [Option.map_some, if_neg fun heq => hequal (Option.some.inj heq)]
        omega
      · simp [Comp.equal, Ne.symm hequal, check_of hr, List.getElem?_eq_getElem hlt]
  | none =>
    cases hlast : data.transitions.getLast? with
    | none => simp [List.getLast?_eq_none_iff.1 hlast] at h
    | some last =>
      have hr := List.getElem?_eq_none_iff.1 htr
      have hlen := hcut.le_length
      rw [List.getLast?_eq_getElem?] at hlast
      have hpos := (List.getElem?_eq_some_iff.1 hlast).1
      refine ⟨data.transitions.length - 1, last, ⟨hfirst, ?_⟩, hlast, by simp⟩
      rw [if_neg (by simp)]
      omega

theorem findLocaltime_of_foundAt {sentry tr : Transition} {comp : Comp} {i : Nat}
    (h : FoundAt comp.key data.transitions (comp.key sentry) i) (htr : data.transitions[i]? = some tr) :
    findLocaltime data sentry comp = data.localtimeOf tr := by
  have hlater : ¬ data.transitions.head?.all (comp.less sentry) := by
    cases hhead : data.transitions.head? with
    | none => simp [List.head?_eq_none_iff.1 hhead] at htr
    | some first =>
      rw [Option.all_some, Comp.less, decide_eq_true_eq]
      exact Int.not_lt.2 (h.1 first hhead)
  obtain ⟨j, tr', hj, htr', heq⟩ := findLocaltime_found hlater
  obtain rfl := hj.unique h
  cases htr.symm.trans htr'
  exact heq

theorem Data.InRange.findLocaltime (h : data.InRange) (sentry : Transition) (comp : Comp) :
    ∃ loc, findLocaltime data sentry comp = some loc := by
  by_cases hfirst : data.transitions.head?.all (comp.less sentry)
  · obtain ⟨first, rest, hne⟩ := List.exists_cons_of_ne_nil h.nonempty
    exact ⟨first, by simp [ChatReactor.findLocaltime, hfirst, hne]⟩
  · obtain ⟨i, tr, -, htr, hfind⟩ := findLocaltime_found hfirst
    rw [hfind]
    exact h.localtimeOf (List.mem_of_getElem? htr)

theorem Data.Usable.toLocalTime (h : data.Usable) (utc : Utc) (time : Int) :
    ∃ tm, TimeZone.toLocalTime utc ⟨some data⟩ time = some tm := by
  obtain ⟨loc, hloc⟩ := h.findLocaltime ⟨time, 0, 0⟩ ⟨true⟩
  have harrb := h.arrb_le time loc hloc
  simp only [TimeZone.toLocalTime, Option.bind_eq_bind, Option.bind_some, hloc, check_of harrb]
  exact ⟨_, rfl⟩

theorem Data.Usable.fromLocalTime (h : data.Usable) (utc : Utc) (tm : Tm) :
    ∃ time, TimeZone.fromLocalTime utc ⟨some data⟩ tm = some time := by
  obtain ⟨loc, hloc⟩ := h.findLocaltime ⟨0, utc.timegm tm, 0⟩ ⟨false⟩
  obtain ⟨tryTm, htry⟩ := h.toLocalTime utc (utc.timegm tm - loc.gmtOffset)
  simp only [TimeZone.fromLocalTime, Option.bind_eq_bind, Option.bind_some, hloc, htry, Option.pure_def]
  split_ifs <;> exact ⟨_, rfl⟩

end

/-! ## The indices in the file -/

/-- There is a type, every index of a transition is that of a type, and the name of a type begins among the characters, if it
is the first type or that of a transition that some time leads to. -/
structure ZoneFile.Blocks.Consistent {timecnt typecnt charcnt : Int32} (z : Blocks timecnt typecnt charcnt) : Prop where
  one_le : 1 ≤ typecnt.toInt
  idx_lt : ∀ x ∈ z.transitions, (x.2.toNat : Int) < typecnt.toInt
  first_le : ∀ type ∈ z.types.head?, (type.abbrind.toNat : Int) ≤ charcnt.toInt
  abbrind_le : ∀ time i x type, FoundAt (fun x => x.1.toInt) z.transitions time i → z.transitions[i]? = some x →
    z.types[x.2.toNat]? = some type → (type.abbrind.toNat : Int) ≤ charcnt.toInt

section
variable {timecnt typecnt charcnt : Int32} {z : Blocks timecnt typecnt charcnt}

theorem ZoneFile.Blocks.foundAt_data {time : Int} {i : Nat} :
    FoundAt (Comp.key ⟨true⟩) z.data.transitions time i ↔ FoundAt (fun x => x.1.toInt) z.transitions time i :=
  foundAt_map (transitionOf (z.types.map LocalType.localtime)) (Comp.key ⟨true⟩) z.transitions time i

theorem ZoneFile.Blocks.localtimeOf_data {i : Nat} {tr : Transition} {loc : Localtime} (htr : z.data.transitions[i]? = some tr)
    (hloc : z.data.localtimeOf tr = some loc) :
    ∃ x type, z.transitions[i]? = some x ∧ z.types[x.2.toNat]? = some type ∧ type.localtime = loc := by
  simp only [Blocks.data, List.getElem?_map, Option.map_eq_some_iff] at htr
  obtain ⟨x, hx, rfl⟩ := htr
  simp only [Data.localtimeOf, Blocks.data, transitionOf, List.getElem?_map, Option.map_eq_some_iff] at hloc
  obtain ⟨type, htype, rfl⟩ := hloc
  exact ⟨x, type, hx, htype, rfl⟩

theorem ZoneFile.Blocks.length_localtimes (z : Blocks timecnt typecnt charcnt) : z.data.localtimes.length = typecnt.toInt.toNat := by
  rw [Blocks.data, List.length_map, z.types_length]

theorem ZoneFile.Blocks.Consistent.usable (h : z.Consistent) : z.data.Usable := by
  have hlen := z.length_localtimes
  refine ⟨⟨?_, fun tr htr => ?_⟩, fun time loc hfind => ?_⟩
  · have hone := h.one_le
    rw [← List.length_pos_iff]
    omega
  · obtain ⟨x, hx, rfl⟩ := List.mem_map.1 htr
    have hlt := h.idx_lt x hx
    show x.2.toNat < z.data.localtimes.length
    omega
  · suffices hle : (loc.arrbIdx : Int) ≤ charcnt.toInt by
      rw [← z.chars_length] at hle
      exact Int.ofNat_le.1 hle
    by_cases hfirst : z.data.transitions.head?.all (Comp.less ⟨true⟩ ⟨time, 0, 0⟩)
    · rw [findLocaltime, if_pos hfirst, Blocks.data, List.head?_map, Option.map_eq_some_iff] at hfind
      obtain ⟨type, htype, rfl⟩ := hfind
      exact h.first_le type htype
    · obtain ⟨i, tr, hfound, htr, heq⟩ := findLocaltime_found hfirst
      obtain ⟨x, type, hx, htype, rfl⟩ := localtimeOf_data htr (heq.symm.trans hfind)
      exact h.abbrind_le time i x type (foundAt_data.1 hfound) hx htype

theorem ZoneFile.Blocks.Consistent.of_usable (h : z.data.Usable) : z.Consistent := by
  have hlen := z.length_localtimes
  have hbound : ∀ time (type : LocalType), findLocaltime z.data ⟨time, 0, 0⟩ ⟨true⟩ = some type.localtime →
      (type.abbrind.toNat : Int) ≤ charcnt.toInt := by
    intro time type hfind
    rw [← z.chars_length]
    exact Int.ofNat_le.2 (h.arrb_le time _ hfind)
  refine ⟨?_, fun x hx => ?_, fun type htype => ?_, fun time i x type hfound hx htype => ?_⟩
  · have hpos := List.length_pos_iff.2 h.nonempty
    omega
  · have hlt : x.2.toNat < z.data.localtimes.length := h.idx_lt _ (List.mem_map_of_mem hx)
    omega
  · -- a time before the first transition
    refine hbound ((z.data.transitions.head?.elim 0 Transition.gmttime) - 1) type ?_
    rw [findLocaltime, if_pos]
    · rw [Blocks.data, List.head?_map, htype, Option.map_some]
    · cases z.data.transitions.head? <;> simp [Comp.less]
  · refine hbound time type ?_
    have htr : z.data.transitions[i]? = some (transitionOf (z.types.map LocalType.localtime) x) := by
      rw [Blocks.data, List.getElem?_map, hx, Option.map_some]
    rw [findLocaltime_of_foundAt (foundAt_data.2 hfound) htr]
    simp [Data.localtimeOf, Blocks.data, transitionOf, htype]

/-- The indices in the file are those that the members use. -/
theorem ZoneFile.Blocks.consistent_iff : z.Consistent ↔ z.data.Usable := ⟨Consistent.usable, Consistent.of_usable⟩

end

/-! ## The constructor -/

/-- What the constructor keeps: whatever has been read until reading has returned or thrown. -/
theorem ofFile_eq_some {zonefile : Option (List UInt8)} {tz : TimeZone} : TimeZone.ofFile zonefile = some tz ↔
    (zonefile = none ∧ tz = ⟨some empty⟩) ∨
      ∃ bytes result s, zonefile = some bytes ∧ readZone (bytes, empty) = some (result, s) ∧ tz = ⟨some s.2⟩ := by
  unfold TimeZone.ofFile readTimeZoneFile
  cases zonefile with
  | none => simp [@eq_comm _ tz]
  | some bytes =>
    cases hread : readZone (bytes, empty) with
    | none => simp [hread]
    | some r =>
      obtain ⟨result, rest, data⟩ := r
      cases result <;> simp [hread, @eq_comm _ tz]

theorem ofFile_valid {zonefile : Option (List UInt8)} {tz : TimeZone} (h : TimeZone.ofFile zonefile = some tz) :
    tz.valid = true := by
  obtain ⟨-, rfl⟩ | ⟨bytes, result, s, -, -, rfl⟩ := ofFile_eq_some.1 h <;> rfl

/-- If the constructor is done and `valid()` is true, the members can be used; if reading has thrown, it is not. -/
def ValidUsable (zonefile : Option (List UInt8)) : Prop :=
  ∃ tz, TimeZone.ofFile zonefile = some tz ∧ (Throws zonefile → tz.valid = false) ∧
    (tz.valid = true → ∃ data, tz.data = some data ∧ data.Usable ∧ ∀ utc : Utc,
      (∀ time, ∃ tm, tz.toLocalTime utc time = some tm) ∧ ∀ tm, ∃ time, tz.fromLocalTime utc tm = some time)

/-- **What a valid time zone is worth.** It can be used exactly if there is a file that begins with all that its counts
say, and these blocks are consistent. -/
theorem valid_usable_iff (zonefile : Option (List UInt8)) : ValidUsable zonefile ↔
    ∃ (z : Contents) (rest : List UInt8), zonefile = some (z.encode ++ rest) ∧ z.blocks.Consistent := by
  simp only [Blocks.consistent_iff]
  constructor
  · rintro ⟨tz, htz, hthrows, huse⟩
    have hvalid := ofFile_valid htz
    obtain ⟨data, hdata, husable, -⟩ := huse hvalid
    obtain ⟨-, rfl⟩ | ⟨bytes, result, ⟨rest, data'⟩, rfl, hread, rfl⟩ := ofFile_eq_some.1 htz
    · cases hdata
      exact absurd rfl husable.nonempty
    · cases hdata
      cases result with
      | error what =>
        have hnot := hthrows ⟨bytes, rfl, what, _, hread⟩
        rw [hvalid] at hnot
        cases hnot
      | ok u =>
        obtain ⟨z, rfl, -, rfl⟩ := returns_readZone.1 hread
        exact ⟨z, rest, rfl, husable⟩
  · rintro ⟨z, rest, rfl, husable⟩
    have hidx : ∀ x ∈ z.blocks.transitions, x.2.toNat < z.blocks.types.length := by
      intro x hx
      simpa [Blocks.data, transitionOf] using husable.idx_lt _ (List.mem_map_of_mem hx)
    have hread : readZone (z.encode ++ rest, empty) = some (.ok (), rest, z.blocks.data) :=
      returns_readZone.2 ⟨z, rfl, hidx, rfl⟩
    refine ⟨⟨some z.blocks.data⟩, ofFile_eq_some.2 (.inr ⟨_, _, _, rfl, hread, rfl⟩), ?_, fun _ => ⟨z.blocks.data, rfl, husable, fun utc =>
      ⟨husable.toLocalTime utc, husable.fromLocalTime utc⟩⟩⟩
    rintro ⟨bytes, hbytes, what, s, hthrow⟩
    cases hbytes
    rw [hread] at hthrow
    cases hthrow

/-- Without a file `valid()` is true and there is no local time; a file that ends after the magic makes reading throw,
and `valid()` is true as well. -/
theorem valid_unusable :
    (∃ tz, TimeZone.ofFile none = some tz ∧ tz.valid = true ∧ tz.data = some empty ∧
        tz.toLocalTime .exact 0 = none ∧ tz.fromLocalTime .exact .zero = none) ∧
      Throws (some magic) ∧ ∃ tz, TimeZone.ofFile (some magic) = some tz ∧ tz.valid = true := by
  refine ⟨⟨⟨some empty⟩, rfl, rfl, rfl, rfl, rfl⟩, ⟨magic, rfl, "no enough data", ([], empty), by decide⟩,
    ⟨some empty⟩, by decide, rfl⟩

end ChatReactor
