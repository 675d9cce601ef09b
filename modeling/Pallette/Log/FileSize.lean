import Pallette.Log.LogFile

/-!
# FileSize — `writtenBytes` against what is in the file

Whatever `fwrite` takes, the front of the line is in the file, and all of it when no call takes
nothing.  But `append` counts the whole line also when it has given up, and counts in an `int`; and
`LogFile` rolls by that count.
-/

open Reasoning

namespace Pallette

namespace Fwrite

/-- Each call takes the next of the counts, or what it is given when that is less. -/
def ofCounts (counts : List Nat) : Fwrite where
  taken call asked := min (counts.getD call 0) asked
  taken_le _ _ := Nat.min_le_right _ _

variable {fwrite : Fwrite} {len call last : Nat}

/-- A call behind the first takes nothing, and there are bytes left. -/
structure GivesUp (fwrite : Fwrite) (len call : Nat) : Prop where
  again : call ≠ 0
  left : fwrite.offset len call < len
  count : fwrite.count len call = 0
  first : ∀ earlier < call, earlier ≠ 0 → fwrite.count len earlier ≠ 0

/-- The line is taken whole, and the counter has room for it; or what is left is a multiple of 4
GiB, which does not show in an `int`. -/
def Counted (fwrite : Fwrite) (writtenBytes : Int) (len : Nat) : Prop :=
  ((∀ call, ¬ fwrite.GivesUp len call) ∧ writtenBytes + len < 2 ^ 31) ∨
    ∃ call, fwrite.GivesUp len call ∧ 2 ^ 32 ∣ len - fwrite.offset len call ∧
      writtenBytes + fwrite.offset len call < 2 ^ 31

theorem GivesUp.unique (h : fwrite.GivesUp len call) (hlast : fwrite.GivesUp len last) :
    call = last := by
  by_contra hne
  obtain hlt | hgt := Nat.lt_or_gt_of_ne hne
  · exact hlast.first call hlt h.again h.count
  · exact h.first last hgt hlast.again hlast.count

/-- The last call leaves nothing, or it is the one that gives up. -/
theorem Last.cases (hlast : fwrite.Last len last)
    (hfirst : ∀ earlier < last, ¬ fwrite.Last len earlier) :
    (fwrite.offset len (last + 1) = len ∧ ∀ call, ¬ fwrite.GivesUp len call) ∨
      (fwrite.offset len (last + 1) = fwrite.offset len last ∧ fwrite.GivesUp len last) := by
  by_cases hwhole : fwrite.offset len (last + 1) = len
  · refine .inl ⟨hwhole, ?_⟩
    intro call hgives
    have hleft := hgives.left
    obtain hlt | rfl | hgt := Nat.lt_trichotomy call last
    · exact hfirst call hlt (.inr ⟨hgives.again, hgives.count⟩)
    · have hcount := hgives.count
      rw [offset_succ] at hwhole
      omega
    · have hmono := @offset_mono fwrite len (last + 1) call hgt
      omega
  · obtain ⟨hagain, hcount⟩ := hlast.resolve_left hwhole
    have hsame : fwrite.offset len (last + 1) = fwrite.offset len last := by
      rw [offset_succ, hcount, Nat.add_zero]
    have hle := @offset_le fwrite len last
    refine .inr ⟨hsame, hagain, by omega, hcount, ?_⟩
    intro earlier hlt hne hzero
    exact hfirst earlier hlt (.inr ⟨hne, hzero⟩)

/-- No line that `LogFile` passes is long enough for the multiple. -/
theorem counted_iff_of_lt {writtenBytes : Int} (h : len < 2 ^ 32) :
    fwrite.Counted writtenBytes len ↔ (∀ call, ¬ fwrite.GivesUp len call) ∧
    writtenBytes + len < 2 ^ 31 := by
  apply or_iff_left
  rintro ⟨call, hgives, hdvd, -⟩
  have hleft := hgives.left
  omega

end Fwrite

namespace AppendFile

variable {fwrite : Fwrite} {file : AppendFile} {logline : Bytes} {last : Nat}

/-- `append` ends with a call; stdio has a front of the line, and all of it when no call takes
nothing. -/
structure Appended (fwrite : Fwrite) (file : AppendFile) (logline : Bytes) (last : Nat) : Prop where
  le_length : last ≤ logline.length
  isLast : fwrite.Last logline.length last
  first : ∀ earlier < last, ¬ fwrite.Last logline.length earlier
  data : (file.append fwrite logline).data =
    file.data ++ logline.take (fwrite.offset logline.length (last + 1))
  whole : (∀ call ≤ last, fwrite.count logline.length call ≠ 0) →
    (file.append fwrite logline).data = file.data ++ logline

/-- The counter grows by what stdio has taken. -/
def Truthful (fwrite : Fwrite) (file : AppendFile) (logline : Bytes) : Prop :=
  ∃ last, Appended fwrite file logline last ∧
    (file.append fwrite logline).writtenBytes_ =
      file.writtenBytes_ + fwrite.offset logline.length (last + 1)

/-- What an `int` can be. -/
def IsInt (n : Int) : Prop :=
  -2 ^ 31 ≤ n ∧ n < 2 ^ 31

instance (n : Int) : Decidable (IsInt n) :=
  inferInstanceAs (Decidable (_ ∧ _))

theorem exists_appended (fwrite : Fwrite) (file : AppendFile) (logline : Bytes) :
    ∃ last, Appended fwrite file logline last ∧
      (file.append fwrite logline).writtenBytes_ = (file.writtenBytes_ + logline.length).bmod
        (2 ^ 32) := by
  obtain ⟨last, hlast, hfirst, happend⟩ := append_spec fwrite file logline
  have hdata : (file.append fwrite logline).data =
      file.data ++ logline.take (fwrite.offset logline.length (last + 1)) := by rw [happend]
  refine ⟨last, ⟨Fwrite.last_le hfirst, hlast, hfirst, hdata, ?_⟩, by rw [happend]⟩
  intro hcounts
  have hwhole := hlast.resolve_right fun hzero ↦ hcounts last (Nat.le_refl last) hzero.2
  rw [hdata, hwhole, List.take_length]

theorem Appended.unique {last' : Nat} (h : Appended fwrite file logline last)
    (h' : Appended fwrite file logline last') : last = last' := by
  by_contra hne
  obtain hlt | hgt := Nat.lt_or_gt_of_ne hne
  · exact h'.first last hlt h.isLast
  · exact h.first last' hgt h'.isLast

/-- The low 32 bits of the sum are right when nothing is missing in them, and the sum is an
`int`. -/
theorem bmod_add_eq_iff {writtenBytes : Int} {len taken : Nat} (h : IsInt writtenBytes)
    (hle : taken ≤ len) :
    (writtenBytes + len).bmod (2 ^ 32) = writtenBytes + taken ↔
      2 ^ 32 ∣ len - taken ∧ writtenBytes + taken < 2 ^ 31 := by
  obtain ⟨hlow, hhigh⟩ := h
  rw [Int.bmod_def]
  constructor
  · intro heq
    split at heq <;> omega
  · rintro ⟨hdvd, hroom⟩
    split <;> omega

theorem truthful_iff (h : IsInt file.writtenBytes_) :
    Truthful fwrite file logline ↔ fwrite.Counted file.writtenBytes_ logline.length := by
  obtain ⟨last, happended, hcounter⟩ := exists_appended fwrite file logline
  have htaken := @Fwrite.offset_le fwrite logline.length (last + 1)
  have hiff : Truthful fwrite file logline ↔ 2 ^ 32 ∣ logline.length -
    fwrite.offset logline.length (last + 1) ∧
      file.writtenBytes_ + fwrite.offset logline.length (last + 1) < 2 ^ 31 := by
    rw [← bmod_add_eq_iff h htaken, ← hcounter]
    constructor
    · rintro ⟨last', happended', heq⟩
      rwa [happended.unique happended']
    · intro heq
      exact ⟨last, happended, heq⟩
  rw [hiff]
  unfold Fwrite.Counted
  obtain ⟨hwhole, hnone⟩ | ⟨hsame, hgives⟩ := happended.isLast.cases happended.first
  · rw [hwhole, Nat.sub_self]
    constructor
    · rintro ⟨-, hroom⟩
      exact .inl ⟨hnone, hroom⟩
    · rintro (⟨-, hroom⟩ | ⟨call, hgives, -⟩)
      · exact ⟨Nat.dvd_zero _, hroom⟩
      · exact absurd hgives (hnone call)
  · rw [hsame]
    constructor
    · intro hcounted
      exact .inr ⟨last, hgives, hcounted⟩
    · rintro (⟨hnone, -⟩ | ⟨call, hcall, hcounted⟩)
      · exact absurd hgives (hnone last)
      · rwa [hcall.unique hgives] at hcounted

/-- The counter is the size of the file. -/
structure Counts (file : AppendFile) : Prop where
  int : IsInt file.writtenBytes_
  size : file.writtenBytes_ = file.data.length

theorem isInt_append (fwrite : Fwrite) (file : AppendFile) (logline : Bytes) :
    IsInt (file.append fwrite logline).writtenBytes_ := by
  obtain ⟨_, -, hcounter⟩ := exists_appended fwrite file logline
  rw [hcounter, Int.bmod_def, IsInt]
  split <;> omega

theorem Counts.append (h : Counts file)
    (hcounted : fwrite.Counted file.writtenBytes_ logline.length) :
    Counts (file.append fwrite logline) := by
  obtain ⟨last, happended, hcounter⟩ := (truthful_iff h.int).mpr hcounted
  refine ⟨isInt_append fwrite file logline, ?_⟩
  have hle := @Fwrite.offset_le fwrite logline.length (last + 1)
  rw [hcounter, h.size, happended.data, List.length_append, List.length_take, Nat.min_eq_left hle]
  exact (Int.natCast_add _ _).symm

end AppendFile

/-! ## Rolling -/

namespace LogFile

variable {gmtime_r : Int → Tm} {fwrite : Fwrite} {s t : LogFile} {file : AppendFile} {now : Int}
    {r : Reading}

/-- A step, with the counts of `fwrite` in it. -/
def Step (gmtime_r : Int → Tm) (s : LogFile) (l : Fwrite × Event) (t : LogFile) : Prop :=
  s.next gmtime_r l.1 l.2 = .ok t

/-- What is written is counted right. -/
def CountedStep (s : LogFile) : Fwrite × Event → Prop
  | (fwrite, .append logline _ _) => ∀ file, s.file_ = some file →
      fwrite.Counted file.writtenBytes_ logline.length
  | _ => True

/-- `appendUnloked`, with a look at the file in place of `writtenBytes`. -/
def appendBySize (gmtime_r : Int → Tm) (fwrite : Fwrite) (s : LogFile) (logline : Bytes) (now : Int)
    (r : Reading) :
    Except Fault LogFile :=
  match s.file_ with
  | none => .error .nullPointer
  | some file =>
      let file := file.append fwrite logline
      { s with file_ := some file }.checkRoll gmtime_r { file with
        writtenBytes_ := file.data.length } now r

/-- The counter of every file, also of those that are closed. -/
def AllCount (s : LogFile) : Prop :=
  ∀ file ∈ s.files, file.Counts

namespace AllCount

theorem openFile (h : AllCount s) (filename : Bytes) (now : Int) :
    AllCount (s.openFile filename now) := by
  intro file hfile
  rw [files_openFile] at hfile
  obtain hold | hnew := List.mem_append.mp hfile
  · exact h file hold
  · rw [List.mem_singleton.mp hnew]
    have hint : AppendFile.IsInt 0 := by decide
    exact ⟨hint, rfl⟩

theorem rollFile (h : AllCount s) (hroll : (s.rollFile gmtime_r r).map Prod.fst = .ok t) :
    AllCount t := by
  unfold LogFile.rollFile at hroll
  split at hroll
  · cases hroll
  next filename _ =>
    split at hroll
    · cases hroll
      exact h.openFile filename r.now
    · cases hroll
      exact h

theorem checkDay (h : AllCount s) (hcheck : s.checkDay gmtime_r now r = .ok t) : AllCount t := by
  unfold LogFile.checkDay at hcheck
  split at hcheck
  · exact h.rollFile hcheck
  · split at hcheck
    · cases hcheck
      exact h
    · cases hcheck
      exact h

theorem checkRoll (h : AllCount s) (hcheck : s.checkRoll gmtime_r file now r = .ok t) :
    AllCount t := by
  unfold LogFile.checkRoll at hcheck
  split at hcheck
  · exact h.rollFile hcheck
  · split at hcheck
    · cases hcheck
    · split at hcheck
      · have hzero : AllCount { s with count_ := 0 } := h
        exact hzero.checkDay hcheck
      · cases hcheck
        exact h

theorem write (h : AllCount s) (hfile : s.file_ = some file) {logline : Bytes}
    (hcounted : fwrite.Counted file.writtenBytes_ logline.length) :
    AllCount { s with file_ := some (file.append fwrite logline) } := by
  unfold AllCount at h
  rw [files_eq hfile] at h
  intro written hwritten
  obtain hold | hnew := List.mem_append.mp hwritten
  · exact h written (List.mem_append_left _ hold)
  · rw [List.mem_singleton.mp hnew]
    exact (h file List.mem_concat_self).append hcounted

theorem step (h : AllCount s) {l : Fwrite × Event}
    (hstep : Guarded (Step gmtime_r) CountedStep s l t) : AllCount t := by
  obtain ⟨hnext, hcounted⟩ := hstep
  obtain ⟨fwrite, event⟩ := l
  unfold Step at hnext
  cases event with
  | append logline now r =>
    rw [LogFile.next, appendUnloked] at hnext
    split at hnext
    · cases hnext
    next file hfile => exact (h.write hfile (hcounted file hfile)).checkRoll hnext
  | rollFile r =>
    rw [LogFile.next] at hnext
    exact h.rollFile hnext
  | flush =>
    rw [LogFile.next, LogFile.flush] at hnext
    split at hnext
    · cases hnext
    · cases hnext
      exact h

theorem new {basename : Bytes} {rollSize flushInterval checkEveryN : Int}
    (hnew : new gmtime_r basename rollSize flushInterval checkEveryN r = .ok s) : AllCount s := by
  unfold LogFile.new at hnew
  refine rollFile ?_ hnew
  intro file hfile
  cases hfile

theorem run (h : AllCount s) {ls : List (Fwrite × Event)}
    (hrun : Run (Guarded (Step gmtime_r) CountedStep) s ls t) :
    AllCount t :=
  hrun.invariant AllCount (fun _ _ _ hs hstep ↦ hs.step hstep) h

/-- The size that decides about the roll is the real one. -/
theorem appendUnloked_eq (h : AllCount s) {logline : Bytes}
    (hcounted : CountedStep s (fwrite, .append logline now r)) :
    s.appendUnloked gmtime_r fwrite logline now r =
      s.appendBySize gmtime_r fwrite logline now r := by
  unfold appendUnloked appendBySize
  cases hfile : s.file_ with
  | none => rfl
  | some file =>
    have hcount : file.Counts := h file (by rw [files_eq hfile]; exact List.mem_concat_self)
    have hsize := (hcount.append (hcounted file hfile)).size
    dsimp only
    rw [← hsize]

end AllCount

/-- **The counter and the file.**  Whatever the line and the counts of `fwrite`, `append` ends and
the file has got the front of the line.  The counter grows by as much exactly when the line is taken
whole and an `int` has room for it, but for what is left of lines of 4 GiB and more.  In a run whose
lines are all counted so, `LogFile` rolls by the real size. -/
theorem append_truthful_iff (fwrite : Fwrite) (file : AppendFile) (logline : Bytes)
    (hint : AppendFile.IsInt file.writtenBytes_) :
    ((∃ last, AppendFile.Appended fwrite file logline last) ∧
        (AppendFile.Truthful fwrite file logline ↔
        fwrite.Counted file.writtenBytes_ logline.length)) ∧
      ∀ (gmtime_r : Int → Tm) (basename : Bytes) (rollSize flushInterval checkEveryN : Int)
        (r : Reading) (s t : LogFile) (ls : List (Fwrite × Event)),
        new gmtime_r basename rollSize flushInterval checkEveryN r = .ok s →
        Run (Guarded (Step gmtime_r) CountedStep) s ls t →
        AllCount t ∧ ∀ now r, CountedStep t (fwrite, .append logline now r) →
          t.appendUnloked gmtime_r fwrite logline now r =
            t.appendBySize gmtime_r fwrite logline now r := by
  constructor
  · obtain ⟨last, happended, -⟩ := AppendFile.exists_appended fwrite file logline
    exact ⟨⟨last, happended⟩, AppendFile.truthful_iff hint⟩
  · intro gmtime_r basename rollSize flushInterval checkEveryN r s t ls hnew hrun
    have hcount := (AllCount.new hnew).run hrun
    exact ⟨hcount, fun _ _ hcounted ↦ hcount.appendUnloked_eq hcounted⟩

/-- Three bytes in two calls, in a file by itself and, two times, in the first file of a
`LogFile`. -/
theorem append_truthful_iff_short :
    AppendFile.Truthful (.ofCounts [2, 1]) { filename := [] } (ascii "abc") ∧
      ∃ s t, new (fun _ ↦ {}) [] 5 3 1024 { now := 1 } = .ok s ∧
        Run (Guarded (Step fun _ ↦ {}) CountedStep) s
          [(.ofCounts [2, 1], .append (ascii "abc") 1 { now := 1 })] t ∧
        AllCount t ∧ t.appendUnloked (fun _ ↦ {}) (.ofCounts [2, 1]) (ascii "abc") 1 { now := 1 } =
          t.appendBySize (fun _ ↦ {}) (.ofCounts [2, 1]) (ascii "abc") 1 { now := 1 } := by
  have hnone : ∀ call, ¬ (Fwrite.ofCounts [2, 1]).GivesUp 3 call := by
    intro call hgives
    have hagain := hgives.again
    have hleft := hgives.left
    obtain rfl | hlater : call = 1 ∨ 2 ≤ call := by omega
    · have hcount : (Fwrite.ofCounts [2, 1]).count 3 1 = 1 := by decide
      rw [hgives.count] at hcount
      cases hcount
    · have hmono := @Fwrite.offset_mono (.ofCounts [2, 1]) 3 2 call hlater
      have hwhole : (Fwrite.ofCounts [2, 1]).offset 3 2 = 3 := by decide
      omega
  have hcheck : ∀ file : AppendFile, file.writtenBytes_ = 3 →
      ({ basename_ := [], rollSize_ := 5, lastRoll_ := 1, lastFlush_ := 1, file_ := some file } :
        LogFile).checkRoll
        (fun _ ↦ {}) file 1 { now := 1 } =
      .ok { basename_ := [], rollSize_ := 5, count_ := 1, lastRoll_ := 1, lastFlush_ := 1, file_ :=
        some file } := by
    intro file hthree
    unfold checkRoll
    rw [hthree]
    rfl
  have hnew : new (fun _ ↦ {}) [] 5 3 1024 { now := 1 } =
      .ok { basename_ := [], rollSize_ := 5, lastRoll_ := 1, lastFlush_ := 1
            file_ := some { filename := ascii "19000100-000000__0.log" } } := by decide
  obtain ⟨_, -, hcounter⟩ := AppendFile.exists_appended (.ofCounts [2, 1])
    { filename := ascii "19000100-000000__0.log" } (ascii "abc")
  have hrun := show Run (Guarded (Step fun _ ↦ {}) CountedStep)
      { basename_ := [], rollSize_ := 5, lastRoll_ := 1, lastFlush_ := 1
        file_ := some { filename := ascii "19000100-000000__0.log" } }
      [(.ofCounts [2, 1], .append (ascii "abc") 1 { now := 1 })]
      { basename_ := [], rollSize_ := 5, count_ := 1, lastRoll_ := 1, lastFlush_ := 1
        file_ := some (({ filename := ascii "19000100-000000__0.log" } : AppendFile).append
          (.ofCounts [2, 1]) (ascii "abc")) } by
    refine .cons ⟨?_, ?_⟩ (.nil _)
    · exact hcheck _ (hcounter.trans (by decide))
    · rintro file ⟨⟩
      exact .inl ⟨hnone, by decide⟩
  have hint : AppendFile.IsInt 0 := by decide
  have hshort := append_truthful_iff (.ofCounts [2, 1]) { filename := [] } (ascii "abc") hint
  refine ⟨hshort.1.2.mpr (.inl ⟨hnone, by decide⟩), _, _, hnew, hrun, ?_⟩
  have hsize := hshort.2 _ _ _ _ _ _ _ _ _ hnew hrun
  refine ⟨hsize.1, hsize.2 _ _ ?_⟩
  rintro file ⟨⟩
  refine .inl ⟨hnone, ?_⟩
  rw [hcounter]
  decide

/-- `fwrite` takes one byte of three, and then none: the counter has all three, and a file of one
byte is left for the next where two would be few enough. -/
theorem not_append_truthful :
    ({ filename := [] } : AppendFile).append (.ofCounts [1]) (ascii "abc") =
        { filename := [], data := ascii "a", writtenBytes_ := 3 } ∧
      (({ basename_ := [], rollSize_ := 2, file_ := some { filename := [] } } :
        LogFile).appendUnloked (fun _ ↦ {})
        (.ofCounts [1]) (ascii "abc") 1 { now := 1 }).map LogFile.closed =
          .ok [{ filename := [], data := ascii "a", writtenBytes_ := 3 }] ∧
      ¬ ∀ (fwrite : Fwrite) (file : AppendFile) (logline : Bytes),
        AppendFile.IsInt file.writtenBytes_ → AppendFile.Truthful fwrite file logline := by
  have happend : ({ filename := [] } : AppendFile).append (.ofCounts [1]) (ascii "abc") =
      { filename := [], data := ascii "a", writtenBytes_ := 3 } := by
    unfold AppendFile.append
    dsimp only
    rw [AppendFile.writeRest]
    rfl
  refine ⟨happend, ?_, ?_⟩
  · unfold appendUnloked
    dsimp only
    rw [happend]
    rfl
  · intro htruthful
    have hcounted := (AppendFile.truthful_iff (by decide)).mp
      (htruthful (.ofCounts [1]) { filename := [] } (ascii "abc") (by decide))
    rw [Fwrite.counted_iff_of_lt (by decide)] at hcounted
    refine hcounted.1 1 ⟨Nat.one_ne_zero, by decide, by decide, ?_⟩
    intro earlier hlt hne
    exact absurd (Nat.lt_one_iff.mp hlt) hne

end LogFile

end Pallette
