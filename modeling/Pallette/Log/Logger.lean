import Mathlib.Data.List.Flatten
import Pallette.Strings
import Pallette.Log.LogTime
import Pallette.Log.Insertions

/-!
# Logger — a record, from the text in front of the message to the brace behind it

The constructor, the message and the destructor write into one LogStream, whose buffer cuts off what
does not fit.
-/

namespace Pallette

namespace Logger

open LogStream

inductive ENUM_LOGLEVEL
  | TRACE | DEBUG | INFO | WARN | ERROR | FATAL
deriving DecidableEq, Repr

def LogLevelName : ENUM_LOGLEVEL → Bytes
  | .TRACE => ascii "TRACE"
  | .DEBUG => ascii "DEBUG"
  | .INFO => ascii "INFO"
  | .WARN => ascii "WARN"
  | .ERROR => ascii "ERROR"
  | .FATAL => ascii "FATAL"

/-- What the constructor is called with and reads: the text of `formatTime`, the number of the
thread, `errno` and the text that `strerror_rl` has for it. -/
structure Origin where
  file : Bytes
  line : IntegerType.int.Value
  level : ENUM_LOGLEVEL
  func : Bytes
  systemError : Bool
  ftime : Bytes
  tid : IntegerType.int.Value
  saveError : IntegerType.int.Value
  strerror : Bytes

/-- `basename_` -/
def basename (file : Bytes) : Bytes :=
  match rfind slash file with
  | some i => file.drop (i + 1)
  | none => file

/-- A string literal or another `const char*`. -/
def text (str : Bytes) : Item :=
  .cString (some str)

/-- What the constructor inserts. -/
def header (o : Origin) : List Item :=
  [.string o.ftime, text (ascii " ["), text (LogLevelName o.level), text (ascii "]"),
    text (ascii " ["),
    .integer o.tid, text (ascii "] "), .string (basename o.file), text (ascii " "), text o.func,
    text (ascii " "), .integer o.line, text (ascii ": \x7b")] ++
  if o.systemError ∧ o.saveError.1 ≠ 0 then
    [text (ascii " (errno="), .integer o.saveError, text (ascii "  "), text o.strerror,
      text (ascii ") ")]
  else []

/-- The stream of a logger behind its constructor and a message. -/
def stream (o : Origin) (message : List Item) : Except LogStream.Fault LogStream :=
  (header o ++ message).foldlM LogStream.insert {}

def terminator : Bytes :=
  ascii "\x7d\n"

/-- What the destructor passes to `gOutput`, and whether it flushes and aborts then. -/
def destructor (logBuffer_ : LogStream) (level_ : ENUM_LOGLEVEL) : Bytes × Bool :=
  let logBuffer_ := logBuffer_.append (terminator.takeWhile (· ≠ 0))
  (logBuffer_.buffer_.data, decide (level_ = .FATAL))

/-! ## The end of a record -/

variable {o : Origin} {message : List Item} {level : ENUM_LOGLEVEL}

theorem destructor_eq (os : LogStream) (level : ENUM_LOGLEVEL) :
    (destructor os level).1 = (os.buffer_.data ++ terminator).take 4000 :=
  append_data os terminator

theorem not_suffix_concat (front : Bytes) {b : UInt8} (h : b ≠ 10) :
    ¬ terminator <:+ front ++ [b] := by
  rintro ⟨rest, heq⟩
  have hlast := congrArg List.getLast? heq
  rw [List.getLast?_concat, show terminator = [125] ++ [10] from rfl, ← List.append_assoc,
    List.getLast?_concat] at hlast
  exact h (Option.some.inj hlast).symm

/-- The terminator needs two bytes; a full buffer keeps the end it has. -/
theorem destructor_ends_iff (os : LogStream) (level : ENUM_LOGLEVEL) :
    terminator <:+ (destructor os level).1 ↔
      os.buffer_.length ≤ 3998 ∨ (os.buffer_.length = 4000 ∧ terminator <:+ os.buffer_.data) := by
  have hfits : os.buffer_.data.length ≤ 4000 := os.buffer_.fits
  have hlength : terminator.length = 2 := rfl
  rw [destructor_eq]
  unfold LogBuffer.length
  obtain hroom | hone | hfull : os.buffer_.data.length ≤ 3998 ∨ os.buffer_.data.length = 3999 ∨
      os.buffer_.data.length = 4000 := by omega
  · rw [List.take_of_length_le (by rw [List.length_append]; omega)]
    exact iff_of_true (List.suffix_append _ _) (.inl hroom)
  · have hcut : (os.buffer_.data ++ terminator).take 4000 = os.buffer_.data ++ [125] := by
      rw [List.take_append, List.take_of_length_le hfits, hone]
      rfl
    rw [hcut]
    exact iff_of_false (not_suffix_concat _ (by decide)) (by omega)
  · rw [List.take_append_of_le_length (by omega), List.take_of_length_le hfits]
    constructor
    · exact fun h ↦ .inr ⟨hfull, h⟩
    · rintro (hle | ⟨-, h⟩)
      · omega
      · exact h

/-- The text of a record leaves two bytes, or fills the buffer with an end that looks like the
terminator. -/
def Fits (text : Bytes) : Prop :=
  text.length ≤ 3998 ∨ (4000 ≤ text.length ∧ terminator <:+ text.take 4000)

theorem fits_iff {os : LogStream} {text : Bytes} (h : os.buffer_.data = text.take 4000) :
    os.buffer_.length ≤ 3998 ∨ (os.buffer_.length = 4000 ∧ terminator <:+ os.buffer_.data) ↔
    Fits text := by
  unfold Fits LogBuffer.length
  rw [h, List.length_take]
  constructor
  · rintro (hle | ⟨hfull, hend⟩)
    · exact .inl (by omega)
    · exact .inr ⟨by omega, hend⟩
  · rintro (hle | ⟨hfull, hend⟩)
    · exact .inl (by omega)
    · exact .inr ⟨by omega, hend⟩

/-- A record ends with the terminator exactly when the buffer has two bytes left for it, or is full
and ends so already.  In terms of what is inserted: the header and the message come to 3998 bytes at
most, or they go past 4000 with the terminator at that place. -/
theorem record_ends_iff (o : Origin) (message : List Item) :
    (∀ os, stream o message = .ok os → (terminator <:+ (destructor os o.level).1 ↔
      os.buffer_.length ≤ 3998 ∨ (os.buffer_.length = 4000 ∧ terminator <:+ os.buffer_.data))) ∧
    ((∀ item ∈ header o ++ message, item.Proper) → ∃ os, stream o message = .ok os ∧
      (terminator <:+ (destructor os o.level).1 ↔
        Fits ((kept {} (header o ++ message)).flatMap Item.rendering))) := by
  constructor
  · intro os _
    exact destructor_ends_iff os o.level
  · intro h
    obtain ⟨os, hrun, hdata⟩ := insert_all_new h
    refine ⟨os, hrun, ?_⟩
    rw [destructor_ends_iff]
    exact fits_iff hdata

/-- What the caller sees to: a path and a time text of ordinary length, and no smallest integer. -/
structure Origin.Proper (o : Origin) : Prop where
  file : o.file.length < 2 ^ 32
  ftime : o.ftime.length < 2 ^ 32
  line : o.line.1 ≠ IntegerType.int.min
  tid : o.tid.1 ≠ IntegerType.int.min
  saveError : o.saveError.1 ≠ IntegerType.int.min

theorem length_basename_le (file : Bytes) : (basename file).length ≤ file.length := by
  unfold basename
  split
  · rw [List.length_drop]
    omega
  · exact Nat.le_refl _

theorem Origin.Proper.header (h : o.Proper) : ∀ item ∈ Logger.header o, item.Proper := by
  have hbase := Nat.lt_of_le_of_lt (length_basename_le o.file) h.file
  have htext : ∀ str, (text str).Proper := fun _ ↦ trivial
  have hint : ∀ value : IntegerType.int.Value, value.1 ≠ IntegerType.int.min →
      (Item.integer value).Proper :=
    fun _ hne _ ↦ hne
  unfold Logger.header
  rw [List.forall_mem_append]
  constructor
  · simp only [List.forall_mem_cons, htext, hint _ h.tid, hint _ h.line, true_and]
    exact ⟨h.ftime, hbase, List.forall_mem_nil _⟩
  · split
    · simp only [List.forall_mem_cons, htext, hint _ h.saveError, true_and]
      exact List.forall_mem_nil _
    · exact List.forall_mem_nil _

def mainOrigin : Origin where
  file := ascii "src/main.cpp"
  line := intSeven
  level := .INFO
  func := ascii "main"
  systemError := false
  ftime := ascii "20200101 00:00:00.000000Z"
  tid := ⟨42, by decide⟩
  saveError := ⟨0, by decide⟩
  strerror := []

theorem proper_mainOrigin : mainOrigin.Proper :=
  ⟨by decide, by decide, by decide, by decide, by decide⟩

theorem record_ends_iff_hello :
    ∃ os, stream mainOrigin [text (ascii "hello")] = .ok os ∧
      (terminator <:+ (destructor os .INFO).1 ↔
        Fits ((kept {} (header mainOrigin ++ [text (ascii "hello")])).flatMap Item.rendering)) := by
  apply (record_ends_iff mainOrigin [text (ascii "hello")]).2
  rw [List.forall_mem_append]
  refine ⟨proper_mainOrigin.header, ?_⟩
  intro item hitem
  rw [List.mem_singleton.mp hitem]
  exact trivial

/-- A message of 4000 bytes leaves no room for the terminator. -/
theorem not_record_ends :
    ¬ ∀ o message, (∀ item ∈ header o ++ message, item.Proper) →
      ∃ os, stream o message = .ok os ∧ terminator <:+ (destructor os o.level).1 := by
  intro h
  have hlong : (Item.string (List.replicate 4000 97)).Proper := by
    show (List.replicate 4000 (97 : UInt8)).length < 2 ^ 32
    rw [List.length_replicate]
    decide
  obtain ⟨front, hfront, hdata⟩ := insert_all_new proper_mainOrigin.header
  have hshort : front.buffer_.data.length < 4000 := by
    have hkept := ((kept_sublist {} (header mainOrigin)).flatMap Item.rendering).length_le
    have hheader : ((header mainOrigin).flatMap Item.rendering).length < 4000 := by decide
    rw [hdata, List.length_take]
    omega
  obtain ⟨full, hfull, hdata'⟩ := insert_data front hlong (Nat.zero_le _)
  have hrun : stream mainOrigin [.string (List.replicate 4000 97)] = .ok full :=
    insert_concat hfront hfull
  -- the message fills the buffer to its end
  obtain ⟨k, hk⟩ : ∃ k, 4000 - front.buffer_.data.length = k + 1 :=
    ⟨3999 - front.buffer_.data.length, by omega⟩
  have hend : full.buffer_.data = front.buffer_.data ++ List.replicate k 97 ++ [97] := by
    have hcut : min (k + 1) 4000 = k + 1 := by omega
    rw [hdata', List.take_append, List.take_of_length_le (Nat.le_of_lt hshort), hk, Item.rendering,
      List.take_replicate, hcut, List.replicate_succ', List.append_assoc]
  have hproper : ∀ item ∈ header mainOrigin ++ [.string (List.replicate 4000 97)], item.Proper := by
    rw [List.forall_mem_append]
    refine ⟨proper_mainOrigin.header, ?_⟩
    intro item hitem
    rw [List.mem_singleton.mp hitem]
    exact hlong
  obtain ⟨os, hos, hterminated⟩ := h mainOrigin _ hproper
  obtain rfl := Except.ok.inj (hrun.symm.trans hos)
  obtain hroom | ⟨-, hsuffix⟩ := (destructor_ends_iff full mainOrigin.level).mp hterminated
  · have hfilled : full.buffer_.data.length = 4000 := by
      rw [hend, List.length_append, List.length_append, List.length_replicate,
        List.length_singleton]
      omega
    change full.buffer_.data.length ≤ 3998 at hroom
    omega
  · rw [hend] at hsuffix
    exact not_suffix_concat _ (by decide) hsuffix

end Logger

end Pallette
