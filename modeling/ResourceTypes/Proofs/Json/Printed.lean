import Mathlib.Data.List.Nodup
import ResourceTypes.Json.Record
import ResourceTypes.Json.Value
import ResourceTypes.Proofs.OrderedMap

/-! # What is read from printed values

`Reads read text a` says that the reader takes the text, whatever follows it, to the value.  A
printed text is read one escaped character at a time (`readTextFrom_escapeChar`).  The containers
take readings over from what they hold: a record from the readers of its fields, one entry after
the other (`FillsSlots`, `FillsSlots.reads`), an object with keys of its own from the reader of
its values (`reads_entries`), and a choice from the reader of its content (`reads_choice`).

A printed value has no control characters, whatever texts it holds, so that it stands on one line
(`printable_print`).  How deep a value nests and how long it is bound those of what it holds
(`Fits.of_mem`), so that the budget and the fuel of a reader suffice further in when they suffice
for the whole. -/

namespace ResourceTypes.Json

/-- The reader takes the text, whatever follows it, to the value. -/
def Reads {α : Type} (read : Reader α) (text : List Char) (a : α) : Prop :=
  ∀ rest, read (text ++ rest) = .ok (a, rest)

section reads

variable {α β σ : Type}

theorem Reads.map {read : Reader α} {text : List Char} {a : α} (h : Reads read text a)
    (f : α → β) : Reads (fun s => (read s).map fun r => (f r.1, r.2)) text (f a) := by
  intro rest
  dsimp only
  rw [h rest]
  rfl

/-! ### Scalars -/

theorem readCode_control {n : Nat} (h : n < 0x20) (rest : List Char) :
    readCode ('0' :: '0' :: hexDigit (n / 16) :: hexDigit n :: rest) = .ok (Char.ofNat n, 4) := by
  have value : hexValue? '0' '0' (hexDigit (n / 16)) (hexDigit n) = some n := by
    revert n
    decide
  have hex : readHex ('0' :: '0' :: hexDigit (n / 16) :: hexDigit n :: rest) = .ok (n, rest) := by
    rw [readHex, value]
  have leading : ¬(0xDC00 ≤ n ∧ n ≤ 0xDFFF) := by omega
  have plain : n < 0xD800 ∨ 0xDBFF < n := by omega
  rw [readCode, hex]
  simp only [bind, Except.bind, if_neg leading, if_pos plain]
  rfl

theorem escapeChar_cases (c : Char) :
    (∃ letter, shortEscape? letter = some c ∧ escapeChar c = ['\\', letter]) ∨
      (c.toNat < 0x20 ∧ escapeChar c =
        ['\\', 'u', '0', '0', hexDigit (c.toNat / 16), hexDigit c.toNat]) ∨
      (c ≠ '"' ∧ c ≠ '\\' ∧ ¬c.toNat < 0x20 ∧ escapeChar c = [c]) := by
  by_cases short : ∃ letter, shortEscape? letter = some c ∧ escapeChar c = ['\\', letter]
  · exact .inl short
  refine .inr ?_
  -- Without a letter of its own a character is none of the seven.
  have other (d letter : Char) (value : shortEscape? letter = some d)
      (text : escapeChar d = ['\\', letter]) : c ≠ d := fun same =>
    short ⟨letter, same ▸ value, same ▸ text⟩
  have quote := other '"' '"' rfl rfl
  have slash := other '\\' '\\' rfl rfl
  rw [escapeChar, if_neg quote, if_neg slash, if_neg (other _ 'b' rfl rfl),
    if_neg (other _ 'f' rfl rfl), if_neg (other _ 'n' rfl rfl), if_neg (other _ 'r' rfl rfl),
    if_neg (other _ 't' rfl rfl)]
  split
  next control => exact .inl ⟨control, rfl⟩
  next control => exact .inr ⟨quote, slash, control, rfl⟩

theorem readTextFrom_escape {e : List Char} {c : Char} {used : Nat}
    (h : readEscape e = .ok (c, used)) (done : List Char) :
    readTextFrom ('\\' :: e) 0 done = readTextFrom e used (c :: done) := by
  rw [readTextFrom, if_neg (by decide), if_pos rfl, h]

/-- A printed character is read as one character. -/
theorem readTextFrom_escapeChar (c : Char) (rest done : List Char) :
    readTextFrom (escapeChar c ++ rest) 0 done = readTextFrom rest 0 (c :: done) := by
  rcases escapeChar_cases c with ⟨letter, hletter, h⟩ | ⟨control, h⟩ | ⟨quote, slash, control, h⟩
  · have escape : readEscape (letter :: rest) = .ok (c, 1) := by rw [readEscape, hletter]
    rw [h]
    exact readTextFrom_escape escape done
  · have code := readCode_control control rest
    rw [Char.ofNat_toNat] at code
    have escape : readEscape ('u' :: '0' :: '0' :: hexDigit (c.toNat / 16) :: hexDigit c.toNat ::
        rest) = .ok (c, 5) := by
      rw [readEscape]
      simp only [shortEscape?, if_true, code]
      rfl
    rw [h]
    exact readTextFrom_escape escape done
  · rw [h, List.singleton_append, readTextFrom, if_neg quote, if_neg slash, if_neg control]

theorem readText_print (s : String) (rest : List Char) :
    readText (s.toList.flatMap escapeChar ++ '"' :: rest) = .ok (s, rest) := by
  have characters : ∀ cs done, readTextFrom (cs.flatMap escapeChar ++ '"' :: rest) 0 done =
      .ok (done.reverse ++ cs, rest) := by
    intro cs
    induction cs with
    | nil => intro done; simp [readTextFrom]
    | cons c cs ih =>
        intro done
        rw [List.flatMap_cons, List.append_assoc, readTextFrom_escapeChar, ih]
        simp
  rw [readText, characters]
  simp [Except.map]

theorem printText_append (s : String) (rest : List Char) :
    printText s ++ rest = '"' :: (s.toList.flatMap escapeChar ++ '"' :: rest) := by
  simp [printText]

theorem print_text (s : String) : print (.text s) = printText s := rfl

theorem reads_text (s : String) : Reads Reader.text (print (.text s)) s := by
  intro rest
  rw [print_text, printText_append]
  exact readText_print s rest

theorem reads_boolean (b : Bool) : Reads Reader.boolean (print (.boolean b)) b := by
  intro rest
  cases b <;> rfl

/-! ### Entries -/

/-- The text of an entry. -/
def entryText (e : String × Json) : List Char := printText e.1 ++ ':' :: e.2.print

/-- The text of the last entries of an object; a comma stands before all but the first one. -/
def entriesText (first : Bool) : List (String × Json) → List Char
  | [] => []
  | e :: rest => (if first then [] else [',']) ++ entryText e ++ entriesText false rest

theorem print_object (entries : List (String × Json)) :
    print (.object entries) = '\x7b' :: (entriesText true entries ++ ['\x7d']) := by
  have later (e : String × Json) (entries : List (String × Json)) :
      printEntries (e :: entries) = entryText e ++ entriesText false entries := by
    induction entries generalizing e with
    | nil => simp [printEntries, entryText, entriesText]
    | cons e' entries ih =>
        rw [printEntries, ih]
        · simp [entryText, entriesText]
        · exact List.cons_ne_nil e' entries
  cases entries with
  | nil => rfl
  | cons e entries =>
      have printed : print (.object (e :: entries)) =
          '\x7b' :: printEntries (e :: entries) ++ ['\x7d'] := rfl
      rw [printed, later]
      simp [entriesText]

theorem nextKey_entriesText (first : Bool) (key : String) (v : Json)
    (entries : List (String × Json)) (rest : List Char) :
    nextKey first (entriesText first ((key, v) :: entries) ++ rest) =
      .ok (some (key, ':' :: (v.print ++ (entriesText false entries ++ rest)))) := by
  have read := readText_print key (':' :: (v.print ++ (entriesText false entries ++ rest)))
  cases first
  all_goals
    simp only [entriesText, entryText, printText_append, List.append_assoc, List.cons_append,
      List.nil_append, if_true, Bool.false_eq_true, if_false]
    simp [nextKey, skipSpace, isSpace, read, Except.map]

theorem nextKey_close (first : Bool) (rest : List Char) :
    nextKey first ('\x7d' :: rest) = .ok none := by
  cases first <;> rfl

theorem readColon_colon (rest : List Char) : readColon (':' :: rest) = .ok rest := rfl

/-! ### Records -/

/-- Entries for some of the fields, in the order of the fields, take what has been read of a record
from the one state to the other. -/
inductive FillsSlots : List (Slot σ) → List (String × Json) → σ → σ → Prop
  | nil (state : σ) : FillsSlots [] [] state state
  | skip {slot : Slot σ} {slots : List (Slot σ)} {entries : List (String × Json)} {state last : σ}
      (later : FillsSlots slots entries state last) : FillsSlots (slot :: slots) entries state last
  | take {slot : Slot σ} {slots : List (Slot σ)} {v : Json} {entries : List (String × Json)}
      {state next last : σ} (reads : Reads (slot.read state) v.print next)
      (later : FillsSlots slots entries next last) :
      FillsSlots (slot :: slots) ((slot.key, v) :: entries) state last

/-- Entries are read as they fill fields none of which has been seen. -/
theorem FillsSlots.recordEntries {slots all : List (Slot σ)} {entries : List (String × Json)}
    {state last : σ} (fills : FillsSlots slots entries state last) (part : slots.Sublist all)
    (keys : (all.map Slot.key).Nodup) (total : Nat) {fuel : Nat} (first : Bool)
    {seen : List String} (fresh : ∀ slot ∈ slots, slot.key ∉ seen)
    (enough : entries.length < fuel) (rest : List Char) :
    recordEntries total all fuel first seen state (entriesText first entries ++ '\x7d' :: rest) =
      .ok (last, '\x7d' :: rest) := by
  obtain ⟨fuel, rfl⟩ := Nat.exists_eq_succ_of_ne_zero (Nat.ne_zero_of_lt enough)
  induction fills generalizing fuel first seen with
  | nil state =>
      rw [Json.recordEntries, entriesText, List.nil_append, nextKey_close]
  | @skip slot slots entries state last later ih =>
      have others := (List.forall_mem_cons.mp fresh).2
      exact ih ((List.sublist_cons_self slot slots).trans part) first others fuel enough
  | @take slot slots v entries state next last reads later ih =>
      obtain ⟨hkey, hfresh⟩ := List.forall_mem_cons.mp fresh
      obtain ⟨hnew, -⟩ := List.nodup_cons.mp (keys.sublist (part.map Slot.key))
      have found := find?_of_nodup keys (part.subset List.mem_cons_self)
      have unseen : seen.contains slot.key = false := by simpa using hkey
      have enough' : entries.length < fuel := Nat.lt_of_succ_lt_succ enough
      obtain ⟨fuel, rfl⟩ := Nat.exists_eq_succ_of_ne_zero (Nat.ne_zero_of_lt enough')
      rw [Json.recordEntries, nextKey_entriesText]
      simp only [found, unseen, readColon_colon, reads _, Bool.false_eq_true, if_false]
      refine ih ((List.sublist_cons_self slot slots).trans part) false (fun s hs => ?_) fuel enough'
      rw [List.mem_cons, not_or]
      exact ⟨fun same => hnew (List.mem_map.mpr ⟨s, hs, same⟩), hfresh s hs⟩

/-- A record is read from the entries that fill it. -/
theorem FillsSlots.reads {shape : Shape σ α} {entries : List (String × Json)} {last : σ} {a : α}
    (fills : FillsSlots shape.slots entries shape.start last)
    (keys : (shape.slots.map Slot.key).Nodup) (complete : shape.complete last = .ok a)
    {fuel : Nat} (enough : entries.length < fuel) :
    Reads (Reader.record fuel true shape) (print (.object entries)) a := by
  intro rest
  have fresh : ∀ slot ∈ shape.slots, slot.key ∉ [] := fun _ _ => List.not_mem_nil
  have filled := fills.recordEntries (.refl _) keys fuel true fresh enough rest
  have inside : recordObject fuel shape (entriesText true entries ++ '\x7d' :: rest) =
      .ok (a, rest) := by
    rw [recordObject, filled]
    simp only [bind, Except.bind, completeObject, complete]
    rfl
  have opened (s : List Char) : Reader.record fuel true shape ('\x7b' :: s) =
      recordObject fuel shape s := rfl
  rw [print_object, List.cons_append, List.append_assoc, opened]
  exact inside

/-! ### Entries with free keys -/

theorem reads_entriesLoop {read : Reader α} (add : σ → String → α → σ) {json : α → Json}
    {l : List (String × α)} (reads : ∀ e ∈ l, Reads read (json e.2).print e.2) {fuel : Nat}
    (first : Bool) (state : σ) (enough : l.length < fuel) (rest : List Char) :
    entriesLoop read add fuel first state
        (entriesText first (l.map fun e => (e.1, json e.2)) ++ '\x7d' :: rest) =
      .ok (l.foldl (fun state e => add state e.1 e.2) state, '\x7d' :: rest) := by
  obtain ⟨fuel, rfl⟩ := Nat.exists_eq_succ_of_ne_zero (Nat.ne_zero_of_lt enough)
  induction l generalizing fuel first state with
  | nil => rw [entriesLoop, List.map_nil, entriesText, List.nil_append, nextKey_close]; rfl
  | cons e l ih =>
      obtain ⟨reads, later⟩ := List.forall_mem_cons.mp reads
      have enough' : l.length < fuel := Nat.lt_of_succ_lt_succ enough
      obtain ⟨fuel, rfl⟩ := Nat.exists_eq_succ_of_ne_zero (Nat.ne_zero_of_lt enough')
      rw [entriesLoop, List.map_cons, nextKey_entriesText]
      simp only [readColon_colon, reads _]
      exact ih later false _ fuel enough'

/-- An object with free keys is read by putting its values one after the other into what has been
read. -/
theorem reads_entries {read : Reader α} (add : σ → String → α → σ) (start : σ) {json : α → Json}
    {l : List (String × α)} (reads : ∀ e ∈ l, Reads read (json e.2).print e.2) {fuel : Nat}
    (enough : l.length < fuel) :
    Reads (Reader.entries fuel true read add start)
      (print (.object (l.map fun e => (e.1, json e.2))))
      (l.foldl (fun state e => add state e.1 e.2) start) := by
  intro rest
  have opened (s : List Char) : Reader.entries fuel true read add start ('\x7b' :: s) =
      settled afterObject (entriesLoop read add fuel true start s >>= fun r =>
        closeObject r.2 >>= fun rest => pure (r.1, rest)) := rfl
  rw [print_object, List.cons_append, List.append_assoc, opened, List.singleton_append,
    reads_entriesLoop add reads true start enough rest]
  rfl

/-! ### Alternatives -/

theorem reads_choiceName {choices : List (Choice α)} {c : Choice α} {a : α} (nested : Bool)
    (names : (choices.map Choice.name).Nodup) (mem : c ∈ choices) (bare : c.bare = some a) :
    Reads (Reader.choice nested choices) (print (.text c.name)) a := by
  intro rest
  have opened (s : List Char) : Reader.choice nested choices ('"' :: s) =
      choiceName choices s := rfl
  rw [print_text, printText_append, opened, choiceName, readText_print]
  simp only [bind, Except.bind, findChoice, find?_of_nodup names mem, bare]
  rfl

/-- A choice is read from its content under its name. -/
theorem reads_choice {choices : List (Choice α)} {c : Choice α} {a : α} {v : Json}
    (names : (choices.map Choice.name).Nodup) (mem : c ∈ choices)
    (content : Reads c.content v.print a) :
    Reads (Reader.choice true choices) (print (.object [(c.name, v)])) a := by
  intro rest
  have opened (s : List Char) : Reader.choice true choices ('\x7b' :: s) =
      choiceObject choices s := rfl
  have named (s : List Char) : choiceKey ('"' :: s) = readText s := rfl
  rw [print_object, List.cons_append, List.append_assoc, opened, choiceObject]
  simp only [entriesText, entryText, if_true, List.nil_append, List.append_assoc, List.append_nil,
    List.cons_append, printText_append, named, readText_print]
  simp only [bind, Except.bind, findChoice, find?_of_nodup names mem, readColon_colon, content _]
  rfl

end reads

/-! ### Values that may be missing -/

section optional

variable {α : Type}

theorem reads_optional_null (read : Reader α) : Reads (Reader.optional read) (print .null) none :=
  fun _ => rfl

theorem reads_optional_object {read : Reader α} {entries : List (String × Json)} {a : α}
    (reads : Reads read (print (.object entries)) a) :
    Reads (Reader.optional read) (print (.object entries)) (some a) := by
  intro rest
  have value := reads rest
  have opened (s : List Char) : Reader.optional read ('\x7b' :: s) =
      (read ('\x7b' :: s)).map fun r => (some r.1, r.2) := rfl
  rw [print_object, List.cons_append] at value ⊢
  rw [opened, value]
  rfl

end optional

/-! ### Printed characters -/

/-- Text without control characters, and so on one line. -/
def Printable (s : List Char) : Prop := ∀ c ∈ s, 0x20 ≤ c.toNat

instance (s : List Char) : Decidable (Printable s) :=
  List.decidableBAll (fun c : Char => 0x20 ≤ c.toNat) s

theorem Printable.append {s t : List Char} (hs : Printable s) (ht : Printable t) :
    Printable (s ++ t) :=
  List.forall_mem_append.mpr ⟨hs, ht⟩

theorem Printable.cons {c : Char} {s : List Char} (hc : 0x20 ≤ c.toNat) (hs : Printable s) :
    Printable (c :: s) :=
  List.forall_mem_cons.mpr ⟨hc, hs⟩

theorem printable_nil : Printable [] := fun _ h => absurd h List.not_mem_nil

theorem printable_escapeChar (c : Char) : Printable (escapeChar c) := by
  have letters : ∀ n < 0x20, shortEscape? (Char.ofNat n) = none := by decide
  have digits : ∀ n < 16, 0x20 ≤ (Nat.digitChar n).toNat := by decide
  have hex (n : Nat) : 0x20 ≤ (hexDigit n).toNat := digits _ (Nat.mod_lt n (by decide))
  rcases escapeChar_cases c with ⟨letter, hletter, h⟩ | ⟨-, h⟩ | ⟨-, -, control, h⟩ <;> rw [h]
  · have high : 0x20 ≤ letter.toNat := by
      by_contra low
      have unused := letters _ (Nat.lt_of_not_le low)
      rw [Char.ofNat_toNat, hletter] at unused
      cases unused
    exact .cons (by decide) (.cons high printable_nil)
  · exact .append (s := ['\\', 'u', '0', '0']) (by decide)
      (.cons (hex _) (.cons (hex _) printable_nil))
  · exact .cons (Nat.le_of_not_lt control) printable_nil

theorem printable_printText (s : String) : Printable (printText s) := by
  refine .append (.cons (by decide) fun d hd => ?_) (by decide)
  obtain ⟨c, -, hd⟩ := List.mem_flatMap.mp hd
  exact printable_escapeChar c d hd

theorem printable_number (n : Nat) : Printable (print (.number n)) := by
  intro c hc
  have digit : c.isDigit = true := Nat.isDigit_of_mem_toDigits (by decide) (by decide) hc
  have zero : '0'.toNat ≤ c.toNat := (Char.isDigit_iff_toNat.mp digit).1
  exact Nat.le_trans (by decide) zero

mutual

/-- A printed value has no control characters. -/
theorem printable_print : ∀ v : Json, Printable v.print
  | .null | .boolean true | .boolean false => by decide
  | .number n => printable_number n
  | .text s => printable_printText s
  | .list items => .append (.cons (by decide) (printable_printItems items)) (by decide)
  | .object entries => .append (.cons (by decide) (printable_printEntries entries)) (by decide)

theorem printable_printItems : ∀ items : List Json, Printable (printItems items)
  | [] => by decide
  | [item] => printable_print item
  | item :: item' :: rest =>
    (printable_print item).append (.cons (by decide) (printable_printItems (item' :: rest)))

theorem printable_printEntries : ∀ entries : List (String × Json), Printable (printEntries entries)
  | [] => by decide
  | [(key, v)] => (printable_printText key).append (.cons (by decide) (printable_print v))
  | (key, v) :: e :: rest =>
    ((printable_printText key).append (.cons (by decide) (printable_print v))).append
      (.cons (by decide) (printable_printEntries (e :: rest)))

end

/-! ### Budget and fuel -/

mutual

/-- The containers that are open at once on the longest way into the value. -/
def nesting : Json → Nat
  | .list items => itemsNesting items + 1
  | .object entries => entriesNesting entries + 1
  | .null | .boolean _ | .number _ | .text _ => 0

/-- The nesting of the items. -/
def itemsNesting : List Json → Nat
  | [] => 0
  | item :: rest => max item.nesting (itemsNesting rest)

/-- The nesting of the values. -/
def entriesNesting : List (String × Json) → Nat
  | [] => 0
  | (_, v) :: rest => max v.nesting (entriesNesting rest)

end

theorem entriesNesting_le {entries : List (String × Json)} {n : Nat} :
    entriesNesting entries ≤ n ↔ ∀ e ∈ entries, e.2.nesting ≤ n := by
  induction entries with
  | nil => simp [entriesNesting]
  | cons e rest ih => rw [entriesNesting, Nat.max_le, ih, List.forall_mem_cons]

theorem length_print_le_of_mem {entries : List (String × Json)} {e : String × Json} (first : Bool)
    (h : e ∈ entries) : e.2.print.length ≤ (entriesText first entries).length := by
  induction entries generalizing first with
  | nil => cases h
  | cons e' entries ih =>
      simp only [entriesText, entryText, List.length_append, List.length_cons]
      obtain rfl | h := List.mem_cons.mp h
      · omega
      · have later := ih false h
        omega

theorem length_le_entriesText (first : Bool) (entries : List (String × Json)) :
    entries.length ≤ (entriesText first entries).length := by
  induction entries generalizing first with
  | nil => exact Nat.zero_le _
  | cons e entries ih =>
      have later := ih false
      simp only [entriesText, entryText, List.length_append, List.length_cons]
      omega

/-- The value nests no deeper than the budget allows, and its text is shorter than the fuel. -/
structure Fits (fuel budget : Nat) (v : Json) : Prop where
  nesting : v.nesting ≤ budget
  length : v.print.length < fuel

namespace Fits

variable {fuel budget : Nat} {entries : List (String × Json)}

theorem of_mem (h : Fits fuel (budget + 1) (.object entries)) {e : String × Json}
    (mem : e ∈ entries) : Fits fuel budget e.2 where
  nesting := entriesNesting_le.mp (Nat.le_of_succ_le_succ h.nesting) e mem
  length := by
    have inside := length_print_le_of_mem true mem
    have whole := h.length
    rw [print_object, List.length_cons, List.length_append] at whole
    omega

theorem entries_length (h : Fits fuel budget (.object entries)) : entries.length < fuel := by
  have inside := length_le_entriesText true entries
  have whole := h.length
  rw [print_object, List.length_cons, List.length_append] at whole
  omega

theorem not_zero : ¬Fits fuel 0 (.object entries) := fun h => Nat.not_succ_le_zero _ h.nesting

end Fits

end ResourceTypes.Json
