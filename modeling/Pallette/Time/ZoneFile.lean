import Pallette.Reasoning.Reader
import Pallette.Time.LocalTime

/-!
# ZoneFile — reading a zone file, and what the zone it gives can be asked

The object that is built is always valid.  Which contents of the file make one whose indices are in
range is `WellFormed`; all others, a missing file first, leave an empty or a partly filled table.
-/

open Reasoning

namespace Pallette.TimeZone

/-! ## The reader -/

abbrev ZoneReader (α : Type) := Reader UInt8 Data Bytes Fault α

/-- `fread` of `n` bytes, which all have to be there. -/
def fread (n : Nat) (what : Bytes) : ZoneReader Bytes :=
  fun rest data ↦ if rest.length < n then .thrown what data else
    .done (rest.take n) (rest.drop n) data

def readBytes (n : Int) : ZoneReader Bytes :=
  -- the array `char buf[n] = { 0 }` has a first element
  if n ≤ 0 then Reader.crash .outOfRange else fread n.toNat (ascii "no enough data")

/-- The signed number that four bytes stand for, the most significant first. -/
def be32toh : Bytes → Int
  | [a, b, c, d] =>
      let x := ((a.toNat * 256 + b.toNat) * 256 + c.toNat) * 256 + d.toNat
      if x < 2 ^ 31 then x else x - 2 ^ 32
  | _ => 0

def readInt32 : ZoneReader Int := do
  let x ← fread 4 (ascii "bad int32_t data")
  pure (be32toh x)

def readUInt8 : ZoneReader UInt8 := do
  let x ← fread 1 (ascii "bad uint8_t data")
  pure (x.headD 0)

def checkHead (head : Bytes) : ZoneReader Unit :=
  if head = ascii "TZif" then pure () else Reader.throwing (ascii "bad head")

/-- `trans.reserve`, whose `length_error` is a `logic_error`. -/
def reserve (n : Int) : ZoneReader Unit :=
  if n < 0 then Reader.throwing (ascii "vector::reserve") else pure ()

/-- `v[i]` -/
def index {α : Type} (v : List α) (i : Nat) : ZoneReader α :=
  match v[i]? with
  | some x => pure x
  | none => Reader.crash .outOfRange

def readLocaltime : ZoneReader Unit := do
  let gmtoff ← readInt32
  let isdst ← readUInt8
  let abbrind ← readUInt8
  Reader.modify fun data ↦
    { data with localtimes := data.localtimes ++ [⟨gmtoff, decide (isdst ≠ 0), abbrind.toNat⟩] }

def addTransition (trans : List Int) (localtimes : List UInt8) (i : Nat) : ZoneReader Unit := do
  let localIdx ← index localtimes i
  let gmttime ← index trans i
  let data ← Reader.get
  let found ← index data.localtimes localIdx.toNat
  Reader.modify fun data ↦
    { data with transitions := data.transitions ++
      [⟨gmttime, gmttime + found.gmtOffset, localIdx.toNat⟩] }

/-- The part in front of the abbreviations, which gives their length. -/
def readTables : ZoneReader Int := do
  let head ← readBytes 4
  checkHead head
  let _version ← readBytes 1
  let _ ← readBytes 15
  let _isgmtcnt ← readInt32
  let _isstdcnt ← readInt32
  let _leapcnt ← readInt32
  let timecnt ← readInt32
  let typecnt ← readInt32
  let charcnt ← readInt32
  reserve timecnt
  let trans ← Reader.loop timecnt.toNat fun _ ↦ readInt32
  let localtimes ← Reader.loop timecnt.toNat fun _ ↦ readUInt8
  let _ ← Reader.loop typecnt.toNat fun _ ↦ readLocaltime
  let _ ← Reader.loop timecnt.toNat (addTransition trans localtimes)
  pure charcnt

/-- The `try` block; the loop at its end has nothing in it. -/
def readZone : ZoneReader Unit := do
  let charcnt ← readTables
  let abbreviation ← readBytes charcnt
  Reader.modify fun data ↦ { data with abbreviation := abbreviation }

/-- `zonefile` is the content of the file, if it can be opened. -/
def readTimeZoneFile (zonefile : Option Bytes) (data : Data) : Except Fault (Bool × Data) :=
  match zonefile with
  | none => .ok (true, data)
  | some content =>
      match readZone content data with
      | .done _ _ data => .ok (true, data)
      -- caught, and what has been read stays
      | .thrown _ data => .ok (true, data)
      | .fault fault => .error fault

def ofFile (zonefile : Option Bytes) : Except Fault TimeZone := do
  let (read, data) ← readTimeZoneFile zonefile {}
  .ok (if read then ⟨some data⟩ else ⟨none⟩)

variable {content rest rest' : Bytes} {data d : Data} {n : Int} {trans : List Int}
    {localtimes : List UInt8}

/-! ## What is read -/

theorem advances_fread (n : Nat) (what : Bytes) :
    Reader.Advances (fread n what) n (List.take n) fun _ data ↦ data := by
  intro rest data x rest' d
  unfold fread
  by_cases hshort : rest.length < n
  · rw [if_pos hshort]
    exact iff_of_false nofun (fun hlen ↦ Nat.not_le_of_lt hshort hlen.1)
  · rw [if_neg hshort, Outcome.done.injEq]
    constructor
    · rintro ⟨rfl, rfl, rfl⟩
      exact ⟨Nat.le_of_not_lt hshort, rfl, rfl, rfl⟩
    · rintro ⟨_, rfl, rfl, rfl⟩
      exact ⟨rfl, rfl, rfl⟩

theorem advances_readBytes (hn : 0 < n) :
    Reader.Advances (readBytes n) n.toNat (List.take n.toNat) fun _ data ↦ data := by
  unfold readBytes
  rw [if_neg (by omega)]
  exact advances_fread n.toNat _

def int32At (content : Bytes) : Int :=
  be32toh (content.take 4)

def byteAt (content : Bytes) : UInt8 :=
  (content.take 1).headD 0

theorem advances_readInt32 : Reader.Advances readInt32 4 int32At fun _ data ↦ data :=
  (advances_fread 4 _).bind fun x ↦ Reader.advances_pure (be32toh x)

theorem advances_readUInt8 : Reader.Advances readUInt8 1 byteAt fun _ data ↦ data :=
  (advances_fread 1 _).bind fun x ↦ Reader.advances_pure (x.headD 0)

def localtimeAt (content : Bytes) : Localtime where
  gmtOffset := int32At content
  isDst := decide (byteAt (content.drop 4) ≠ 0)
  arrbIdx := (byteAt (content.drop 5)).toNat

def pushLocaltime (content : Bytes) (data : Data) : Data :=
  { data with localtimes := data.localtimes ++ [localtimeAt content] }

theorem advances_readLocaltime : Reader.Advances readLocaltime 6 (fun _ ↦ ()) pushLocaltime := by
  intro rest data u rest' d
  unfold readLocaltime
  rw [advances_readInt32.bind_done, advances_readUInt8.bind_done, advances_readUInt8.bind_done,
    Reader.advances_modify]
  simp only [List.drop_drop, List.length_drop]
  constructor
  · rintro ⟨hlen, hlen', hlen'', _, heqs⟩
    exact ⟨by omega, heqs⟩
  · rintro ⟨hlen, heqs⟩
    exact ⟨by omega, by omega, by omega, Nat.zero_le _, heqs⟩

theorem rounds_pushLocaltime (n : Nat) (rest : Bytes) (data : Data) :
    Reader.rounds 6 pushLocaltime n rest data =
      { data with localtimes := data.localtimes ++ Reader.values 6 localtimeAt n rest } := by
  induction n generalizing rest data with
  | zero =>
    change data = { data with localtimes := data.localtimes ++ [] }
    rw [List.append_nil]
  | succ n ih =>
    change Reader.rounds 6 pushLocaltime n (rest.drop 6) (pushLocaltime rest data) = _
    rw [ih, Reader.values_succ]
    unfold pushLocaltime
    dsimp only
    rw [List.append_assoc, List.singleton_append]

def timecnt (content : Bytes) : Int :=
  int32At (content.drop 32)

def typecnt (content : Bytes) : Int :=
  int32At (content.drop 36)

def charcnt (content : Bytes) : Int :=
  int32At (content.drop 40)

/-- The tables of a file, from their counts: the times, their local times, and the local times
themselves. -/
def times (content : Bytes) : List Int :=
  Reader.values 4 int32At (timecnt content).toNat (content.drop 44)

def indices (content : Bytes) : List UInt8 :=
  Reader.values 1 byteAt (timecnt content).toNat (content.drop (44 + 4 * (timecnt content).toNat))

def types (content : Bytes) : List Localtime :=
  Reader.values 6 localtimeAt (typecnt content).toNat (content.drop
    (44 + 5 * (timecnt content).toNat))

theorem checkHead_bind {α : Type} {head : Bytes} {g : Unit → ZoneReader α} {a : α} :
    (checkHead head >>= g) rest data = .done a rest' d ↔
      head = ascii "TZif" ∧ g () rest data = .done a rest' d := by
  unfold checkHead
  by_cases hhead : head = ascii "TZif"
  · rw [if_pos hhead, and_iff_right hhead]
    rfl
  · rw [if_neg hhead]
    exact iff_of_false nofun (fun h ↦ hhead h.1)

theorem reserve_bind {α : Type} {g : Unit → ZoneReader α} {a : α} :
    (reserve n >>= g) rest data = .done a rest' d ↔ 0 ≤ n ∧ g () rest data = .done a rest' d := by
  unfold reserve
  by_cases hn : n < 0
  · rw [if_pos hn]
    exact iff_of_false nofun (fun h ↦ by omega)
  · rw [if_neg hn, and_iff_right (by omega)]
    rfl

/-- The lengths that the reads ask for one after the other are one length. -/
theorem length_of_reads {len times types : Nat} (hcounts : 4 ≤ len - 40)
    (htimes : 4 * times ≤ len - 44)
    (hindices : times ≤ len - (44 + 4 * times)) (htypes : 6 * types ≤ len - (44 + 5 * times)) :
    44 + 5 * times + 6 * types ≤ len := by
  omega

theorem reads_of_length {len times types : Nat} (h : 44 + 5 * times + 6 * types ≤ len) :
    4 ≤ len ∧ 1 ≤ len - 4 ∧ 15 ≤ len - 5 ∧ 4 ≤ len - 20 ∧ 4 ≤ len - 24 ∧ 4 ≤ len - 28 ∧
    4 ≤ len - 32 ∧
      4 ≤ len - 36 ∧ 4 ≤ len - 40 ∧ 4 * times ≤ len - 44 ∧ times ≤ len - (44 + 4 * times) ∧
      6 * types ≤ len - (44 + 5 * times) := by
  omega

theorem readTables_done {chars : Int} : readTables content data = .done chars rest' d ↔
    content.take 4 = ascii "TZif" ∧ 0 ≤ timecnt content ∧
    44 + 5 * (timecnt content).toNat + 6 * (typecnt content).toNat ≤ content.length ∧
    ∃ u, Reader.loop (timecnt content).toNat (addTransition (times content) (indices content))
        (content.drop (44 + 5 * (timecnt content).toNat + 6 * (typecnt content).toNat))
        { data with localtimes := data.localtimes ++ types content } = .done u rest' d ∧
      chars = charcnt content := by
  unfold readTables
  rw [(advances_readBytes (by decide)).bind_done_same, checkHead_bind,
    (advances_readBytes (by decide)).bind_done_same,
    (advances_readBytes (by decide)).bind_done_same,
    advances_readInt32.bind_done_same, advances_readInt32.bind_done_same,
    advances_readInt32.bind_done_same,
    advances_readInt32.bind_done_same, advances_readInt32.bind_done_same,
    advances_readInt32.bind_done_same,
    reserve_bind, (Reader.advances_loop_same (fun _ ↦ advances_readInt32) _).bind_done_same,
    (Reader.advances_loop_same (fun _ ↦ advances_readUInt8) _).bind_done_same,
    (Reader.advances_loop (fun _ ↦ advances_readLocaltime) _).bind_done, Reader.bind_done]
  simp only [List.drop_drop, List.length_drop, Int.reduceToNat, Nat.reduceAdd, Nat.one_mul]
  have htimes : int32At (content.drop 32) = timecnt content := rfl
  have htypes : int32At (content.drop 36) = typecnt content := rfl
  have hchars : int32At (content.drop 40) = charcnt content := rfl
  have hindices : 44 + 4 * (timecnt content).toNat + (timecnt content).toNat =
      44 + 5 * (timecnt content).toNat := by
    omega
  rw [htimes, htypes, hchars, hindices, rounds_pushLocaltime]
  simp only [Reader.pure_done]
  constructor
  · rintro ⟨_, hhead, _, _, _, _, _, _, _, hcounts, hpos, htimes, hindices, htypes, u, m, d', hloop,
      hchars, rfl, rfl⟩
    exact ⟨hhead, hpos, length_of_reads hcounts htimes hindices htypes, u, hloop, hchars⟩
  · rintro ⟨hhead, hpos, hlen, u, hloop, hchars⟩
    obtain ⟨h₁, h₂, h₃, h₄, h₅, h₆, h₇, h₈, hcounts, htimes, hindices, htypes⟩ :=
      reads_of_length hlen
    exact ⟨h₁, hhead, h₂, h₃, h₄, h₅, h₆, h₇, h₈, hcounts, hpos, htimes, hindices, htypes, u, rest',
      d, hloop, hchars, rfl, rfl⟩

/-! ## The transitions -/

theorem index_some {α β : Type} {v : List α} {i : Nat} {x : α} {g : α → ZoneReader β}
    (h : v[i]? = some x) :
    (index v i >>= g) rest data = g x rest data := by
  unfold index
  rw [h]
  rfl

theorem index_none {α β : Type} {v : List α} {i : Nat} {g : α → ZoneReader β} (h : v[i]? = none) :
    (index v i >>= g) rest data = .fault .outOfRange := by
  unfold index
  rw [h]
  rfl

theorem index_bind {α β : Type} {v : List α} {i : Nat} {g : α → ZoneReader β} {b : β} :
    (index v i >>= g) rest data = .done b rest' d ↔ ∃ x, v[i]? = some x ∧
    g x rest data = .done b rest' d := by
  cases hx : v[i]? with
  | none =>
    rw [index_none hx]
    exact iff_of_false nofun (by rintro ⟨x, heq, _⟩; cases heq)
  | some x =>
    rw [index_some hx]
    constructor
    · exact fun h ↦ ⟨x, rfl, h⟩
    · rintro ⟨y, heq, h⟩
      cases heq
      exact h

/-- A transition is made if its index is one of the local times. -/
theorem addTransition_done {i : Nat} {u : Unit} :
    addTransition trans localtimes i rest data = .done u rest' d ↔
    ∃ localIdx gmttime found, localtimes[i]? = some localIdx ∧ trans[i]? = some gmttime ∧
      data.localtimes[localIdx.toNat]? = some found ∧ rest' = rest ∧
      d = { data with
        transitions := data.transitions ++
          [⟨gmttime, gmttime + found.gmtOffset, localIdx.toNat⟩] } := by
  unfold addTransition
  rw [index_bind]
  constructor
  · rintro ⟨localIdx, hlocal, h⟩
    obtain ⟨gmttime, htime, h⟩ := index_bind.mp h
    obtain ⟨found, hfound, h⟩ := index_bind.mp h
    obtain ⟨rfl, rfl⟩ := (Outcome.done.injEq .. ▸ h).2
    exact ⟨localIdx, gmttime, found, hlocal, htime, hfound, rfl, rfl⟩
  · rintro ⟨localIdx, gmttime, found, hlocal, htime, hfound, rfl, rfl⟩
    exact ⟨localIdx, hlocal, index_bind.mpr ⟨gmttime, htime, index_bind.mpr ⟨found, hfound, rfl⟩⟩⟩

/-- It throws nothing. -/
theorem addTransition_cases (trans : List Int) (localtimes : List UInt8) (i : Nat) (rest : Bytes)
    (data : Data) : addTransition trans localtimes i rest data = .fault .outOfRange ∨
      ∃ localIdx gmttime found, data.localtimes[UInt8.toNat localIdx]? = some found ∧
        addTransition trans localtimes i rest data = .done () rest { data with
          transitions := data.transitions ++
            [⟨gmttime, gmttime + found.gmtOffset, localIdx.toNat⟩] } := by
  unfold addTransition
  cases hlocal : localtimes[i]? with
  | none => exact .inl (index_none hlocal)
  | some localIdx =>
    rw [index_some hlocal]
    cases htime : trans[i]? with
    | none => exact .inl (index_none htime)
    | some gmttime =>
      rw [index_some htime]
      cases hfound : data.localtimes[localIdx.toNat]? with
      | none => exact .inl (index_none hfound)
      | some found => exact .inr ⟨localIdx, gmttime, found, hfound, index_some hfound⟩

/-- Transitions have been added whose indices are in range. -/
structure Filled (data d : Data) : Prop where
  localtimes : d.localtimes = data.localtimes
  abbreviation : d.abbreviation = data.abbreviation
  transitions : ∀ transition ∈ d.transitions,
    transition ∈ data.transitions ∨ transition.localtimeIdx < data.localtimes.length

theorem transitions_of_done {first n : Nat} {us : List Unit}
    (h : Reader.loopFrom (addTransition trans localtimes) first n rest data = .done us rest' d) :
    rest' = rest ∧ Filled data d ∧ ∀ i localIdx, first ≤ i → i < first + n →
      localtimes[i]? = some localIdx → localIdx.toNat < data.localtimes.length := by
  induction n generalizing first data us with
  | zero =>
    obtain ⟨_, rfl, rfl⟩ := Reader.pure_done.mp h
    refine ⟨rfl, ⟨rfl, rfl, fun _ ↦ .inl⟩, ?_⟩
    intro i localIdx hi hlt
    omega
  | succ n ih =>
    obtain ⟨u, m, data', hadd, h⟩ := Reader.bind_done.mp h
    obtain ⟨us', m', d', hloop, h⟩ := Reader.bind_done.mp h
    obtain ⟨_, rfl, rfl⟩ := Reader.pure_done.mp h
    obtain ⟨localIdx, gmttime, found, hlocal, _, hfound, rfl, rfl⟩ := addTransition_done.mp hadd
    -- the induction is on the number of turns that are left: this one, and then the others
    obtain ⟨rfl, hfilled, hall⟩ := ih hloop
    have hlt : localIdx.toNat < data.localtimes.length := (List.getElem?_eq_some_iff.mp hfound).1
    refine ⟨rfl, ⟨hfilled.localtimes, hfilled.abbreviation, ?_⟩, ?_⟩
    · intro transition htransition
      rcases hfilled.transitions transition htransition with hold | hnew
      · rcases List.mem_append.mp hold with hold | hnew
        · exact .inl hold
        · rw [List.mem_singleton.mp hnew]
          exact .inr hlt
      · exact .inr hnew
    · intro i localIdx' hi hend hget
      rcases Nat.lt_or_eq_of_le hi with hlater | rfl
      · exact hall i localIdx' hlater (by omega) hget
      · rw [hlocal] at hget
        cases hget
        exact hlt

theorem exists_addTransition {i : Nat} (rest : Bytes) (htrans : i < trans.length)
    (hlocal : i < localtimes.length)
    (hindices : ∀ localIdx ∈ localtimes, localIdx.toNat < data.localtimes.length) :
    ∃ d, addTransition trans localtimes i rest data = .done () rest d ∧
      d.localtimes = data.localtimes := by
  have hget := List.getElem?_eq_getElem hlocal
  have hfound := List.getElem?_eq_getElem (hindices _ (List.mem_of_getElem? hget))
  exact ⟨_, addTransition_done.mpr ⟨_, _, _, hget, List.getElem?_eq_getElem htrans, hfound, rfl,
    rfl⟩, rfl⟩

theorem transitions_done {first n : Nat} (rest : Bytes) (htrans : first + n ≤ trans.length)
    (hlocal : first + n ≤ localtimes.length)
    (hindices : ∀ localIdx ∈ localtimes, localIdx.toNat < data.localtimes.length) :
    ∃ us d, Reader.loopFrom (addTransition trans localtimes) first n rest data =
      .done us rest d := by
  induction n generalizing first data with
  | zero => exact ⟨[], data, rfl⟩
  | succ n ih =>
    obtain ⟨data', hadd, hsame⟩ := exists_addTransition rest (show first < trans.length by omega)
      (show first < localtimes.length by omega) hindices
    have hrest : ∃ us d, Reader.loopFrom (addTransition trans localtimes) (first + 1) n rest data' =
        .done us rest d := by
      apply ih
      · omega
      · omega
      · rw [hsame]
        exact hindices
    obtain ⟨us, d, hloop⟩ := hrest
    exact ⟨() :: us, d, Reader.bind_done.mpr ⟨(), rest, data', hadd,
      Reader.bind_done.mpr ⟨us, rest, d, hloop, Reader.pure_done.mpr ⟨rfl, rfl, rfl⟩⟩⟩⟩

/-! ## What holds however the reading ends -/

section

variable {p : Data → Prop}

theorem keeps_fread (n : Nat) (what : Bytes) : Reader.Keeps p (fread n what) := by
  intro rest data hdata
  unfold fread
  by_cases hshort : rest.length < n
  · rw [if_pos hshort]
    exact hdata
  · rw [if_neg hshort]
    exact hdata

theorem keeps_readBytes (n : Int) : Reader.Keeps p (readBytes n) := by
  unfold readBytes
  by_cases hn : n ≤ 0
  · rw [if_pos hn]
    exact Reader.keeps_crash _
  · rw [if_neg hn]
    exact keeps_fread _ _

theorem keeps_readInt32 : Reader.Keeps p readInt32 :=
  (keeps_fread 4 _).bind fun x ↦ Reader.keeps_pure (be32toh x)

theorem keeps_readUInt8 : Reader.Keeps p readUInt8 :=
  (keeps_fread 1 _).bind fun x ↦ Reader.keeps_pure (x.headD 0)

theorem keeps_checkHead (head : Bytes) : Reader.Keeps p (checkHead head) := by
  unfold checkHead
  split
  · exact Reader.keeps_pure _
  · exact Reader.keeps_throwing _

theorem keeps_reserve (n : Int) : Reader.Keeps p (reserve n) := by
  unfold reserve
  split
  · exact Reader.keeps_throwing _
  · exact Reader.keeps_pure _

theorem keeps_addTransition
    (hadd : ∀ data gmttime localtimeIdx found, p data →
    data.localtimes[localtimeIdx]? = some found →
      p { data with
        transitions := data.transitions ++ [⟨gmttime, gmttime + found.gmtOffset, localtimeIdx⟩] })
    (trans : List Int) (localtimes : List UInt8) (i : Nat) :
    Reader.Keeps p (addTransition trans localtimes i) := by
  intro rest data hdata
  rcases addTransition_cases trans localtimes i rest data with
    hfault | ⟨localIdx, gmttime, found, hfound, hdone⟩
  · rw [hfault]
    trivial
  · rw [hdone]
    exact hadd data gmttime _ found hdata hfound

/-- The tables are added to the zone by two of the loops only. -/
theorem keeps_readTables
    (hpush : ∀ data found, p data → p { data with localtimes := data.localtimes ++ [found] })
    (hadd : ∀ trans localtimes i, Reader.Keeps p (addTransition trans localtimes i)) :
    Reader.Keeps p readTables :=
  have hlocaltime : Reader.Keeps p readLocaltime :=
    keeps_readInt32.bind fun _ ↦ keeps_readUInt8.bind fun _ ↦ keeps_readUInt8.bind fun _ ↦
      Reader.keeps_modify fun data hdata ↦ hpush data _ hdata
  (keeps_readBytes 4).bind fun head ↦ (keeps_checkHead head).bind fun _ ↦
    (keeps_readBytes 1).bind fun _ ↦ (keeps_readBytes 15).bind fun _ ↦
    keeps_readInt32.bind fun _ ↦ keeps_readInt32.bind fun _ ↦ keeps_readInt32.bind fun _ ↦
    keeps_readInt32.bind fun timecnt ↦ keeps_readInt32.bind fun typecnt ↦
    keeps_readInt32.bind fun charcnt ↦ (keeps_reserve timecnt).bind fun _ ↦
    (Reader.keeps_loopFrom (fun _ ↦ keeps_readInt32) 0 timecnt.toNat).bind fun trans ↦
    (Reader.keeps_loopFrom (fun _ ↦ keeps_readUInt8) 0 timecnt.toNat).bind fun localtimes ↦
    (Reader.keeps_loopFrom (fun _ ↦ hlocaltime) 0 typecnt.toNat).bind fun _ ↦
    (Reader.keeps_loopFrom (hadd trans localtimes) 0 timecnt.toNat).bind fun _ ↦
    Reader.keeps_pure charcnt

end

/-- Only the end of the `try` block sets the abbreviations. -/
def NoText (data : Data) : Prop :=
  data.abbreviation = []

theorem noText_readTables : Reader.Keeps NoText readTables :=
  keeps_readTables (fun _ _ hdata ↦ hdata) (keeps_addTransition fun _ _ _ _ hdata _ ↦ hdata)

theorem noText_of_thrown {what : Bytes} (hdata : NoText data)
    (h : readZone content data = .thrown what d) :
    NoText d := by
  rcases Reader.bind_thrown.mp h with hthrown | ⟨charcnt, m, data', htables, h⟩
  · exact noText_readTables.thrown hdata hthrown
  · have hdata' := noText_readTables.done hdata htables
    rcases Reader.bind_thrown.mp h with hthrown | ⟨text, m', data'', _, hmodify⟩
    · exact (keeps_readBytes charcnt).thrown hdata' hthrown
    · cases hmodify

/-- The local time of a transition is its time with the offset it brings. -/
def Computed (data : Data) : Prop :=
  ∀ transition ∈ data.transitions, ∃ found, data.localtimes[transition.localtimeIdx]? = some found ∧
    transition.localtime = transition.gmttime + found.gmtOffset

theorem computed_push (h : Computed data) (found : Localtime) :
    Computed { data with localtimes := data.localtimes ++ [found] } := by
  intro transition htransition
  obtain ⟨found', hfound, hlocaltime⟩ := h transition htransition
  have hlt := (List.getElem?_eq_some_iff.mp hfound).1
  exact ⟨found', (List.getElem?_append_left hlt).trans hfound, hlocaltime⟩

theorem computed_add {gmttime : Int} {localtimeIdx : Nat} {found : Localtime} (h : Computed data)
    (hfound : data.localtimes[localtimeIdx]? = some found) :
    Computed { data with
      transitions := data.transitions ++
        [⟨gmttime, gmttime + found.gmtOffset, localtimeIdx⟩] } := by
  intro transition htransition
  rcases List.mem_append.mp htransition with hold | hnew
  · exact h transition hold
  · rw [List.mem_singleton.mp hnew]
    exact ⟨found, hfound, rfl⟩

theorem computed_readTables : Reader.Keeps Computed readTables := by
  apply keeps_readTables
  · exact fun data found hdata ↦ computed_push hdata found
  · apply keeps_addTransition
    exact fun data gmttime localtimeIdx found hdata hfound ↦ computed_add hdata hfound

theorem computed_readZone : Reader.Keeps Computed readZone :=
  computed_readTables.bind fun charcnt ↦ (keeps_readBytes charcnt).bind fun _ ↦
    Reader.keeps_modify fun _ hdata ↦ hdata

/-! ## The zone -/

/-- All that `toLocalTime` and `fromLocalTime` index is there. -/
structure Safe (data : Data) : Prop extends Indexed data where
  abbreviations : ∀ found ∈ data.localtimes, found.arrbIdx < data.abbreviation.length

theorem Safe.toLocalTime (h : Safe data) (gmtime_r : Int → Tm) (seconds : Int) :
    ∃ tm, toLocalTime gmtime_r ⟨some data⟩ seconds = .ok tm := by
  obtain ⟨found, hmem, hfound⟩ := h.toIndexed.findLocaltime ⟨seconds, 0, 0⟩ ⟨true⟩
  exact ⟨_, toLocalTime_found gmtime_r hfound (Nat.le_of_lt (h.abbreviations found hmem))⟩

theorem Safe.fromLocalTime (h : Safe data) (gmtime_r : Int → Tm) (timegm : Tm → Int) (tm : Tm) :
    ∃ seconds, fromLocalTime gmtime_r timegm ⟨some data⟩ tm = .ok seconds := by
  obtain ⟨found, _, hfound⟩ := h.toIndexed.findLocaltime ⟨0, timegm tm, 0⟩ ⟨false⟩
  obtain ⟨tryTm, htry⟩ := h.toLocalTime gmtime_r (timegm tm - found.gmtOffset)
  exact ⟨_, fromLocalTime_found rfl hfound htry⟩

theorem not_safe_of_noText (h : NoText data) : ¬ Safe data := by
  intro hsafe
  obtain ⟨found, hfound⟩ := List.exists_mem_of_ne_nil _ hsafe.localtimes
  have hlt := hsafe.abbreviations found hfound
  rw [h] at hlt
  exact Nat.not_lt_zero _ hlt

/-- A file with the tables and the abbreviations its counts announce, at least one local time, and
the bytes that are indices in range. -/
structure WellFormed (content : Bytes) : Prop where
  head : content.take 4 = ascii "TZif"
  timecnt_nonneg : 0 ≤ timecnt content
  typecnt_pos : 0 < typecnt content
  length : 44 + 5 * (timecnt content).toNat + 6 * (typecnt content).toNat +
    (charcnt content).toNat ≤
    content.length
  indices_lt : ∀ localIdx ∈ indices content, localIdx.toNat < (typecnt content).toNat
  arrbIdx_lt : ∀ found ∈ types content, (found.arrbIdx : Int) < charcnt content

theorem length_types (content : Bytes) : (types content).length = (typecnt content).toNat :=
  Reader.length_values _ _ _ _

theorem readZone_done {u : Unit} : readZone content data = .done u rest' d ↔
    ∃ m d', readTables content data = .done (charcnt content) m d' ∧ 0 < charcnt content ∧
      (charcnt content).toNat ≤ m.length ∧ rest' = m.drop (charcnt content).toNat ∧
      d = { d' with abbreviation := m.take (charcnt content).toNat } := by
  unfold readZone
  rw [Reader.bind_done]
  constructor
  · rintro ⟨chars, m, d', htables, h⟩
    obtain ⟨_, _, _, _, _, hchars⟩ := readTables_done.mp htables
    rw [hchars] at htables h
    by_cases hpos : 0 < charcnt content
    · rw [(advances_readBytes hpos).bind_done_same] at h
      obtain ⟨hlen, h⟩ := h
      rw [Reader.modify_done] at h
      exact ⟨m, d', htables, hpos, hlen, h⟩
    · obtain ⟨_, _, _, htext, _⟩ := Reader.bind_done.mp h
      unfold readBytes at htext
      rw [if_pos (by omega)] at htext
      cases htext
  · rintro ⟨m, d', htables, hpos, hlen, hend⟩
    refine ⟨charcnt content, m, d', htables, ?_⟩
    rw [(advances_readBytes hpos).bind_done_same, Reader.modify_done]
    exact ⟨hlen, hend⟩

theorem wellFormed_of_readZone {u : Unit} (hzone : readZone content {} = .done u rest' d)
    (hsafe : Safe d) :
    WellFormed content := by
  obtain ⟨m, d', htables, hpos, hlen, _, hd⟩ := readZone_done.mp hzone
  obtain ⟨hhead, htimes, hlong, us, hloop, _⟩ := readTables_done.mp htables
  obtain ⟨hm, hfilled, hall⟩ := transitions_of_done hloop
  have htypes : d.localtimes = types content := by
    rw [hd]
    exact hfilled.localtimes
  have hcount := length_types content
  have hsome : types content ≠ [] := htypes ▸ hsafe.localtimes
  have htypecnt := List.length_pos_iff.mpr hsome
  rw [hm, List.length_drop] at hlen
  constructor
  · exact hhead
  · exact htimes
  · omega
  · omega
  · intro localIdx hmem
    obtain ⟨i, hi, hget⟩ := List.mem_iff_getElem.mp hmem
    have hlt : i < (timecnt content).toNat := by
      unfold indices at hi
      rw [Reader.length_values] at hi
      exact hi
    have hrange := hall i localIdx (Nat.zero_le i) (by omega)
      (List.getElem?_eq_some_iff.mpr ⟨hi, hget⟩)
    rw [← hcount]
    exact hrange
  · intro found hmem
    have hrange := hsafe.abbreviations found (htypes ▸ hmem)
    rw [hd] at hrange
    change found.arrbIdx < (m.take (charcnt content).toNat).length at hrange
    rw [List.length_take] at hrange
    omega

theorem WellFormed.types_ne (h : WellFormed content) : types content ≠ [] := by
  have hpos := h.typecnt_pos
  rw [← List.length_pos_iff, length_types]
  omega

theorem WellFormed.charcnt_pos (h : WellFormed content) : 0 < charcnt content := by
  obtain ⟨found, hfound⟩ := List.exists_mem_of_ne_nil _ h.types_ne
  have hrange := h.arrbIdx_lt found hfound
  omega

/-- The transitions that are added to the local times of the file, and the abbreviations behind
them. -/
theorem WellFormed.safe {text : Bytes} (h : WellFormed content)
    (hfilled : Filled { localtimes := types content } d)
    (htext : text.length = (charcnt content).toNat) :
    Safe { d with abbreviation := text } := by
  have hsame : d.localtimes = types content := hfilled.localtimes
  constructor
  · constructor
    · change d.localtimes ≠ []
      rw [hsame]
      exact h.types_ne
    · intro transition hmem
      change _ < d.localtimes.length
      rw [hsame]
      exact (hfilled.transitions transition hmem).resolve_left nofun
  · intro found hmem
    have hmem' : found ∈ types content := hsame ▸ hmem
    have hrange := h.arrbIdx_lt found hmem'
    change found.arrbIdx < text.length
    omega

theorem readZone_of_wellFormed (h : WellFormed content) :
    ∃ rest' d, readZone content {} = .done () rest' d ∧ Safe d := by
  have hlong := h.length
  have htimes : (times content).length = (timecnt content).toNat := Reader.length_values _ _ _ _
  have hindices : (indices content).length = (timecnt content).toNat := Reader.length_values _ _ _ _
  generalize hm : content.drop (44 + 5 * (timecnt content).toNat + 6 * (typecnt content).toNat) = m
  have hlen : (charcnt content).toNat ≤ m.length := by
    rw [← hm, List.length_drop]
    omega
  obtain ⟨us, d', hloop⟩ : ∃ us d', Reader.loop (timecnt content).toNat
      (addTransition (times content) (indices content)) m { localtimes := types content } =
      .done us m d' := by
    apply transitions_done
    · omega
    · omega
    · intro localIdx hmem
      change localIdx.toNat < (types content).length
      rw [length_types]
      exact h.indices_lt localIdx hmem
  obtain ⟨_, hfilled, _⟩ := transitions_of_done hloop
  have htables : readTables content {} = .done (charcnt content) m d' := by
    apply readTables_done.mpr
    rw [hm]
    exact ⟨h.head, h.timecnt_nonneg, by omega, us, hloop, rfl⟩
  have htext : (m.take (charcnt content).toNat).length = (charcnt content).toNat := by
    rw [List.length_take]
    omega
  exact ⟨_, _, readZone_done.mpr ⟨m, d', htables, h.charcnt_pos, hlen, rfl, rfl⟩,
    h.safe hfilled htext⟩

/-- How a zone comes to its data; it has some in any case. -/
inductive Made : Option Bytes → Data → Prop
  | missing : Made none {}
  | read {content rest : Bytes} {data : Data} {u : Unit} :
      readZone content {} = .done u rest data → Made (some content) data
  | caught {content what : Bytes} {data : Data} :
      readZone content {} = .thrown what data → Made (some content) data

theorem made_of_ofFile {zonefile : Option Bytes} {zone : TimeZone}
    (h : ofFile zonefile = .ok zone) :
    ∃ data, zone = ⟨some data⟩ ∧ Made zonefile data := by
  obtain ⟨⟨read, data⟩, hread, hmade⟩ := ok_of_bind h
  cases zonefile with
  | none =>
    cases hread
    cases hmade
    exact ⟨{}, rfl, .missing⟩
  | some content =>
    unfold readTimeZoneFile at hread
    dsimp only at hread
    cases hcase : readZone content {} with
    | done u rest' d =>
      rw [hcase] at hread
      cases hread
      cases hmade
      exact ⟨_, rfl, .read hcase⟩
    | thrown what d =>
      rw [hcase] at hread
      cases hread
      cases hmade
      exact ⟨_, rfl, .caught hcase⟩
    | fault what =>
      rw [hcase] at hread
      cases hread

theorem ofFile_read {u : Unit} (h : readZone content {} = .done u rest' d) :
    ofFile (some content) = .ok ⟨some d⟩ := by
  have hread : readTimeZoneFile (some content) {} = .ok (true, d) := by
    unfold readTimeZoneFile
    dsimp only
    rw [h]
  unfold ofFile
  rw [hread]
  rfl

/-- **What a zone file makes of a zone.**  The file is read without an index out of range, and the
zone is not valid or all it indexes is there, exactly if the file exists and is well formed. -/
theorem ofFile_safe_iff (zonefile : Option Bytes) :
    (∃ zone, ofFile zonefile = .ok zone ∧ ∀ data, zone.data_ = some data → Safe data) ↔
      ∃ content, zonefile = some content ∧ WellFormed content := by
  constructor
  · rintro ⟨zone, hzone, hall⟩
    obtain ⟨data, rfl, hmade⟩ := made_of_ofFile hzone
    have hsafe := hall data rfl
    have hempty : NoText {} := rfl
    cases hmade with
    | missing => exact (not_safe_of_noText hempty hsafe).elim
    | read hread => exact ⟨_, rfl, wellFormed_of_readZone hread hsafe⟩
    | caught hthrown => exact (not_safe_of_noText (noText_of_thrown hempty hthrown) hsafe).elim
  · rintro ⟨content, rfl, hwf⟩
    obtain ⟨rest', d, hread, hsafe⟩ := readZone_of_wellFormed hwf
    refine ⟨⟨some d⟩, ofFile_read hread, ?_⟩
    intro data hdata
    cases hdata
    exact hsafe

/-- A zone with one local time and no transition. -/
example : readTimeZoneFile (some (ascii "TZif" ++ List.replicate 16 0 ++
      [0, 0, 0, 0, 0, 0, 0, 0, 0, 0, 0, 0, 0, 0, 0, 0, 0, 0, 0, 1, 0, 0, 0, 4] ++
        [255, 255, 227, 224, 0, 0] ++
      ascii "LMT" ++ [0])) {} =
    .ok (true, { localtimes := [⟨-7200, false, 0⟩], abbreviation := ascii "LMT" ++ [0] }) := by
  decide +kernel

/-- Without a file the zone is valid and empty. -/
theorem missing_file_valid :
    ¬ ∀ zonefile, ∃ zone, ofFile zonefile = .ok zone ∧ ∀ data, zone.data_ = some data →
    Safe data := by
  intro h
  obtain ⟨zone, hzone, hsafe⟩ := h none
  cases hzone
  exact (hsafe _ rfl).localtimes rfl

/-! ## The round trip -/

theorem computed_of_made {zonefile : Option Bytes} (h : Made zonefile data) : Computed data := by
  have hempty : Computed {} := nofun
  cases h with
  | missing => exact hempty
  | read hread => exact computed_readZone.done hempty hread
  | caught hthrown => exact computed_readZone.thrown hempty hthrown

/-- A zone that a file gives is as the round trip needs it if its indices are in range, its
transitions ascend and lie apart, its offsets are at most a day, and its clocks go back at the end
of summer time. -/
theorem regular_of_ofFile {zonefile : Option Bytes} (h : ofFile zonefile = .ok ⟨some data⟩)
    (hsafe : Safe data)
    (gmtAscending : Ascending ⟨true⟩ data) (localAscending : Ascending ⟨false⟩ data)
    (apart : ∀ i x y, data.transitions[i]? = some x → data.transitions[i + 1]? = some y →
      x.gmttime + 2 * 86400 ≤ y.gmttime)
    (offsets : ∀ found ∈ data.localtimes, -86400 ≤ found.gmtOffset ∧ found.gmtOffset ≤ 86400)
    (backward : ∀ i old new, period data i = .ok old → period data (i + 1) = .ok new →
      new.gmtOffset < old.gmtOffset → old.isDst = true ∧ new.isDst = false) : Regular data where
  toIndexed := hsafe.toIndexed
  abbreviations found hfound := Nat.le_of_lt (hsafe.abbreviations found hfound)
  localtime i transition found htransition hperiod := by
    obtain ⟨_, heq, hmade⟩ := made_of_ofFile h
    cases heq
    obtain ⟨found', hfound', hlocaltime⟩ :=
      computed_of_made hmade transition (List.mem_of_getElem? htransition)
    rw [period_succ htransition, elem_eq hfound'] at hperiod
    cases hperiod
    exact hlocaltime
  gmtAscending := gmtAscending
  localAscending := localAscending
  apart := apart
  offsets := offsets
  backward := backward

end Pallette.TimeZone
