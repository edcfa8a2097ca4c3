import CpuEmulator.Assembler.Split

set_option autoImplicit false

namespace CpuEmulator.Assembler

section Checked

variable (str : Buffer)

-- str[i] for an index up to the terminating NUL; none is one behind it.
def Buffer.within (i : Nat) : Option Char := if i ≤ str.text.length then str.at i else none

-- memmove(str + i, str + i + 1, strlen(str) - i); none is a pointer behind the
-- NUL or a length that wraps around.
def Buffer.closeWithin (i : Nat) : Option Buffer := if i + 1 ≤ str.text.length then str.closeGap i else none

-- The turns of for (int i = start; i < strlen(str); i++) from the i-th on. The
-- inner none is a search that comes to the end.
def findWithin (test : Char → Bool) : Nat → Nat → Option (Option Nat)
  | 0, _ => some none
  | more + 1, i => (str.within i).bind fun c => if test c then some (some i) else findWithin test more (i + 1)

def searchWithin (start : Nat) (test : Char → Bool) : Option (Option Nat) :=
  findWithin str test (str.text.length - start) start

-- strncpy(sub, str + start, length), a byte at a time.
def copyWithin (start : Nat) : Nat → Option Text
  | 0 => some []
  | length + 1 => (str.within start).bind fun c => (copyWithin (start + 1) length).map (c :: ·)

def substringWithin (start stop : Nat) : Option (Option Text) :=
  if stop ≤ start ∨ str.text.length < stop then some none else (copyWithin str start (stop - start)).map some

end Checked

def skipWithin (i : Nat) : Nat → Buffer → Option Buffer
  | 0, _ => none
  | fuel + 1, str =>
      (str.within i).bind fun c => if c == ' ' then (str.closeWithin i).bind (skipWithin i fuel) else some str

-- split_by_char with every access checked against the current strlen.
def splitWithin (str : Buffer) (delimiter : Char) : Option Parts :=
  (skipWithin 0 (str.text.length + 1) str).bind fun trimmed =>
    (searchWithin trimmed 0 (· == delimiter)).bind fun found1 =>
      let end1 := found1.getD 0
      (substringWithin trimmed 0 end1).bind fun part1 =>
        (skipWithin (end1 + 1) (trimmed.text.length + 1) trimmed).bind fun closed =>
          (searchWithin closed (end1 + 1) (· == delimiter)).bind fun found2 =>
            let end2 := found2.getD end1
            (substringWithin closed (end1 + 1) end2).bind fun part2 =>
              (skipWithin (end2 + 1) (closed.text.length + 1) closed).bind fun last =>
                (searchWithin last (end2 + 1) (fun c => c == delimiter || c == '\n')).bind fun found3 =>
                  let stop := found3.getD end2
                  let end3 := if stop < end2 + 1 then last.text.length else stop
                  (substringWithin last (end2 + 1) end3).map fun part3 => ⟨part1, part2, part3⟩

section Accesses

variable (str : Buffer)

theorem within_inside (i : Nat) (c : Char) (more : Text) (here : str.text.drop i = c :: more) : str.within i = some c := by
  have found : str.text[i]? = some c := by
    rw [← List.head?_drop, here]
    rfl
  have inside := (List.getElem?_eq_some_iff.mp found).1
  rw [Buffer.within, if_pos (Nat.le_of_lt inside), Buffer.at, if_pos inside, found]

theorem find_within (test : Char → Bool) (more i : Nat) (left : more = str.text.length - i) :
    findWithin str test more i = some (scanFrom str.text i test) := by
  induction more generalizing i with
  | zero => rw [findWithin, scanFrom, List.drop_of_length_le (by omega), List.findIdx?_nil, Option.map_none]
  | succ more ih =>
      cases here : str.text.drop i with
      | nil =>
          have short := List.drop_eq_nil_iff.mp here
          omega
      | cons c rest =>
          have later : str.text.drop (i + 1) = rest := by rw [← List.tail_drop, here, List.tail_cons]
          rw [findWithin, within_inside str i c rest here, Option.bind_some, scanFrom, here, List.findIdx?_cons]
          cases test c with
          | true => rw [if_pos rfl, if_pos rfl, Option.map_some, Nat.zero_add]
          | false =>
              rw [if_neg Bool.false_ne_true, if_neg Bool.false_ne_true, ih (i + 1) (by omega), scanFrom, later, Option.map_map]
              congr 2
              funext found
              exact (Nat.add_assoc found 1 i ▸ congrArg (found + ·) (Nat.add_comm i 1) :)

theorem search_within (start : Nat) (test : Char → Bool) : searchWithin str start test = some (scanFrom str.text start test) :=
  find_within str test _ start rfl

theorem copy_within (start length : Nat) (inside : start + length ≤ str.text.length) :
    copyWithin str start length = some ((str.text.drop start).take length) := by
  induction length generalizing start with
  | zero => rw [copyWithin, List.take_zero]
  | succ length ih =>
      cases here : str.text.drop start with
      | nil =>
          have short := List.drop_eq_nil_iff.mp here
          omega
      | cons c rest =>
          have later : str.text.drop (start + 1) = rest := by rw [← List.tail_drop, here, List.tail_cons]
          rw [copyWithin, within_inside str start c rest here, Option.bind_some, ih (start + 1) (by omega), later, Option.map_some,
            List.take_succ_cons]

theorem substring_within (start stop : Nat) : substringWithin str start stop = some (substring str.text start stop) := by
  rw [substringWithin, substring]
  by_cases invalid : stop ≤ start ∨ str.text.length < stop
  · rw [if_pos invalid, if_pos invalid]
  · rw [if_neg invalid, if_neg invalid, copy_within str start (stop - start) (by omega), Option.map_some]

end Accesses

def skipped (i : Nat) (text : Text) : Text := text.take i ++ (text.drop i).dropWhile (· == ' ')

theorem skip_within (i fuel : Nat) (str : Buffer) (inside : i ≤ str.text.length) :
    skipWithin i fuel str = skipSpaces i fuel str := by
  induction fuel generalizing str with
  | zero => rfl
  | succ fuel ih =>
      rw [skipWithin, skipSpaces, Buffer.within, if_pos inside]
      cases here : str.at i with
      | none => rfl
      | some c =>
          rw [Option.bind_some]
          dsimp only
          cases space : c == ' ' with
          | false => rfl
          | true =>
              have before : i < str.text.length := by
                refine Nat.lt_of_le_of_ne inside fun same => ?_
                rw [Buffer.at, same, if_neg (Nat.lt_irrefl _), if_pos rfl] at here
                rw [← Option.some.inj here] at space
                cases space
              have here : i + 1 ≤ str.text.length := before
              rw [if_pos rfl, if_pos rfl, Buffer.closeWithin, if_pos here, Buffer.closeGap, if_pos before, Option.bind_some,
                Option.bind_some]
              exact ih _ (by rw [List.length_eraseIdx_of_lt before]; omega)

theorem skip_spaces_skipped (i : Nat) (str : Buffer) (inside : i ≤ str.text.length) :
    ∃ rest, skipSpaces i (str.text.length + 1) str = some ⟨skipped i str.text, rest⟩ := by
  obtain ⟨k, after, split, stops⟩ := leading_spaces (str.text.drop i)
  have width : (str.text.take i).length = i := List.length_take_of_le inside
  have enough : k < str.text.length + 1 := by
    have length := congrArg List.length split
    rw [List.length_drop, List.length_append, spaces, List.length_replicate] at length
    omega
  have run := skip_spaces_run (str.text.take i) after str.rest k (str.text.length + 1) enough stops
  rw [width, ← split, List.take_append_drop] at run
  have dropped : (str.text.drop i).dropWhile (· == ' ') = after := by
    rw [split, List.dropWhile_append_of_pos (fun c member => by rw [List.eq_of_mem_replicate member]; rfl)]
    cases after with
    | nil => rfl
    | cons c after =>
        have other : ¬ (c == ' ') = true := fun space => stops (congrArg some (beq_iff_eq.mp space))
        rw [List.dropWhile_cons, if_neg other]
  rw [skipped, dropped]
  exact ⟨_, run⟩

theorem skipped_length (i : Nat) (text : Text) (inside : i ≤ text.length) : i ≤ (skipped i text).length := by
  rw [skipped, List.length_append, List.length_take_of_le inside]
  exact Nat.le_add_right i _

theorem scan_from_inside (text : Text) (start i : Nat) (test : Char → Bool) (found : scanFrom text start test = some i) :
    i < text.length := by
  obtain ⟨j, position, rfl⟩ := Option.map_eq_some_iff.mp found
  have inside := (List.findIdx?_eq_some_iff_getElem.mp position).1
  rw [List.length_drop] at inside
  omega

theorem next_start_inside (text : Text) (start fallback : Nat) (test : Char → Bool) (inside : fallback + 1 ≤ text.length) :
    (scanFrom text start test).getD fallback + 1 ≤ text.length := by
  cases found : scanFrom text start test with
  | none => exact inside
  | some i => exact scan_from_inside text start i test found

theorem trimmed_filled (text : Text) (filled : isEmpty text = false) : 0 < (skipped 0 text).length := by
  rw [skipped, List.take_zero, List.drop_zero, List.nil_append]
  induction text with
  | nil => cases filled
  | cons c text ih =>
      rw [List.dropWhile_cons]
      by_cases space : (c == ' ') = true
      · rw [if_pos space]
        rw [isEmpty, beq_iff_eq.mp space] at filled
        exact ih filled
      · rw [if_neg space]
        exact Nat.succ_pos _

def fieldsOf (text : Text) (delimiter : Char) : Parts :=
  let trimmed := skipped 0 text
  let end1 := (scanFrom trimmed 0 (· == delimiter)).getD 0
  let closed := skipped (end1 + 1) trimmed
  let end2 := (scanFrom closed (end1 + 1) (· == delimiter)).getD end1
  ⟨substring trimmed 0 end1, substring closed (end1 + 1) end2, lastPart ⟨skipped (end2 + 1) closed, []⟩ delimiter end2⟩

theorem split_fields (str : Buffer) (delimiter : Char) (filled : isEmpty str.text = false) :
    splitWithin str delimiter = some (fieldsOf str.text delimiter) ∧
      splitByChar str delimiter = some (fieldsOf str.text delimiter) := by
  obtain ⟨rest1, trim⟩ := skip_spaces_skipped 0 str (Nat.zero_le _)
  rw [splitWithin, splitByChar, skip_within 0 _ str (Nat.zero_le _), trim, Option.bind_some, Option.bind_some, search_within,
    Option.bind_some, fieldsOf]
  dsimp only
  rw [substring_within, Option.bind_some]
  have start1 := next_start_inside (skipped 0 str.text) 0 0 (· == delimiter) (trimmed_filled str.text filled)
  generalize (scanFrom (skipped 0 str.text) 0 (· == delimiter)).getD 0 = end1 at start1 ⊢
  obtain ⟨rest2, close⟩ := skip_spaces_skipped (end1 + 1) ⟨skipped 0 str.text, rest1⟩ start1
  rw [skip_within _ _ _ start1, close, Option.bind_some, Option.bind_some, search_within, Option.bind_some, laterParts]
  dsimp only
  rw [substring_within, Option.bind_some]
  have start2 := next_start_inside (skipped (end1 + 1) (skipped 0 str.text)) (end1 + 1) end1 (· == delimiter)
    (skipped_length _ _ start1)
  generalize (scanFrom (skipped (end1 + 1) (skipped 0 str.text)) (end1 + 1) (· == delimiter)).getD end1 = end2 at start2 ⊢
  obtain ⟨rest3, finish⟩ := skip_spaces_skipped (end2 + 1) ⟨skipped (end1 + 1) (skipped 0 str.text), rest2⟩ start2
  rw [skip_within _ _ _ start2, finish, Option.bind_some, Option.map_some, Option.map_some, search_within, Option.bind_some]
  dsimp only
  rw [substring_within, Option.map_some]
  exact ⟨rfl, rfl⟩

-- For every line, whatever its comment leaves behind the NUL.
theorem split_stays_in_line (line : Buffer) (delimiter : Char) (filled : isEmpty (removeComment line).text = false) :
    ∃ parts, ∀ rest, splitWithin ⟨(removeComment line).text, rest⟩ delimiter = some parts ∧
      splitByChar ⟨(removeComment line).text, rest⟩ delimiter = some parts :=
  ⟨fieldsOf (removeComment line).text delimiter, fun rest => split_fields ⟨(removeComment line).text, rest⟩ delimiter filled⟩

theorem split_stays_in_line_comment :
    ∃ parts, ∀ rest, splitWithin ⟨[' ', 'N', 'O', 'T'], rest⟩ ' ' = some parts ∧
      splitByChar ⟨[' ', 'N', 'O', 'T'], rest⟩ ' ' = some parts :=
  split_stays_in_line (Buffer.ofBytes [' ', 'N', 'O', 'T', ';', ' ', 'R', '0']) ' ' (by decide)

end CpuEmulator.Assembler
