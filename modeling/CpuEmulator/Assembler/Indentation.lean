import CpuEmulator.Assembler.Assembled
import CpuEmulator.Assembler.LabelTable

set_option autoImplicit false

namespace CpuEmulator.Assembler

open Library.Addresses

def indented (layout : List (Nat × Text)) : List Text := layout.map fun entry => spaces entry.1 ++ entry.2

-- The lines without the label lines that get spaces.
def struck (layout : List (Nat × Text)) : List Text :=
  (layout.filter fun entry => entry.1 == 0 || (labelKey entry.2).isNone).map Prod.snd

-- The label lines of a file: what each defines, and the instructions in front.
def definitions (count : U64) : List Text → List (Text × U64)
  | [] => []
  | line :: rest =>
      match labelKey line with
      | some key => (key, count) :: definitions count rest
      | none => definitions (if kindOf line = .instruction then count + 1 else count) rest

section Lines

variable (n : Nat) (line : Text)

theorem visible_spaces : visible (spaces n ++ line) = spaces n ++ visible line := by
  have unended : cString (spaces n ++ line) = spaces n ++ cString line :=
    List.takeWhile_append_of_pos fun c member => by rw [List.eq_of_mem_replicate member]; rfl
  rw [visible, unended, strip]
  exact List.takeWhile_append_of_pos fun c member => by rw [List.eq_of_mem_replicate member]; rfl

theorem is_empty_spaces : isEmpty (spaces n ++ line) = isEmpty line := by
  induction n with
  | zero => rfl
  | succ n ih => exact ih

theorem label_key_spaces : labelKey (spaces n ++ line) = (labelKey line).map (spaces n ++ ·) := by
  have skipped : (spaces n).findIdx? (· == ':') = none := find_missing ':' _ (not_mem_spaces ':' n (by decide))
  rw [labelKey, labelKey, visible_spaces, is_empty_spaces]
  cases isEmpty (visible line) with
  | true => rfl
  | false =>
      rw [if_neg Bool.false_ne_true, if_neg Bool.false_ne_true, List.findIdx?_append, skipped, Option.none_or, Option.map_map,
        Option.map_map]
      congr 1
      funext colon
      rw [Function.comp_apply, Function.comp_apply, Nat.add_comm, spaces, List.length_replicate, List.take_append,
        List.take_of_length_le (by rw [List.length_replicate]; exact Nat.le_add_right n colon), List.length_replicate,
        Nat.add_sub_cancel_left]

theorem kind_spaces : kindOf (spaces n ++ line) =
    match labelKey line with
    | some key => .label ((spaces n ++ key).take keyRoom)
    | none => kindOf line := by
  rw [kindOf, label_key_spaces, visible_spaces, is_empty_spaces]
  cases defines : labelKey line with
  | some key => rfl
  | none => rw [kindOf, defines]; rfl

theorem kind_spaces_instruction : kindOf (spaces n ++ line) = .instruction ↔ kindOf line = .instruction := by
  rw [kind_spaces, kindOf]
  cases labelKey line with
  | some key => exact ⟨fun other => (by cases other), fun other => (by cases other)⟩
  | none => rfl

end Lines

section Tables

structure SameTable (table other : Table Text) : Prop where
  count : table.count = other.count
  address : ∀ label : Text, label.head? ≠ some ' ' → table.address label = other.address label

theorem indented_key (n : Nat) (key label : Text) (plain : label.head? ≠ some ' ') : label ≠ (spaces (n + 1) ++ key).take keyRoom := by
  rintro rfl
  exact plain rfl

theorem assign_indented (table other : Table Text) (entry : Nat × Text) (same : SameTable table other) :
    SameTable (assign kindOf table (spaces entry.1 ++ entry.2)) ((struck [entry]).foldl (assign kindOf) other) := by
  obtain ⟨n, line⟩ := entry
  have both (unchanged : kindOf (spaces n ++ line) = kindOf line) :
      SameTable (assign kindOf table (spaces n ++ line)) (assign kindOf other line) := by
    cases kind : kindOf line with
    | blank =>
        rw [assign_blank kindOf table _ (unchanged.trans kind), assign_blank kindOf other line kind]
        exact same
    | label key =>
        rw [assign_label kindOf table _ key (unchanged.trans kind), assign_label kindOf other line key kind]
        refine ⟨same.count, fun label plain => ?_⟩
        dsimp only
        rw [Function.update_apply, Function.update_apply, same.address label plain, same.count]
    | instruction =>
        rw [assign_instruction kindOf table _ (unchanged.trans kind), assign_instruction kindOf other line kind]
        exact ⟨congrArg (· + 1) same.count, same.address⟩
  cases defines : labelKey line with
  | none =>
      have kept : struck [(n, line)] = [line] := by rw [struck, List.filter_cons_of_pos (by rw [defines, Option.isNone_none, Bool.or_true])]; rfl
      rw [kept]
      exact both (by rw [kind_spaces, defines])
  | some key =>
      cases n with
      | zero => exact both rfl
      | succ n =>
          have gone : struck [(n + 1, line)] = [] := by
            rw [struck, List.filter_cons_of_neg (by rw [defines]; exact Bool.false_ne_true)]
            rfl
          rw [gone, List.foldl_nil, assign_label kindOf table _ ((spaces (n + 1) ++ key).take keyRoom) (by rw [kind_spaces, defines])]
          refine ⟨same.count, fun label plain => ?_⟩
          dsimp only
          rw [Function.update_of_ne (indented_key n key label plain), same.address label plain]

theorem resolve_indented (layout : List (Nat × Text)) :
    SameTable (resolve kindOf (indented layout)) (resolve kindOf (struck layout)) := by
  have run (table other : Table Text) (same : SameTable table other) :
      SameTable ((indented layout).foldl (assign kindOf) table) ((struck layout).foldl (assign kindOf) other) := by
    induction layout generalizing table other with
    | nil => exact same
    | cons entry layout ih =>
        have split : struck (entry :: layout) = struck [entry] ++ struck layout := by
          rw [struck, ← List.singleton_append, List.filter_append, List.map_append, struck, struck]
        rw [split, List.foldl_append, indented, List.map_cons, List.foldl_cons]
        exact ih _ _ (assign_indented table other entry same)
  exact run _ _ ⟨rfl, fun _ _ => rfl⟩

end Tables

section Branches

variable (line : Text) (labels other : Labels)

theorem parse_line_labels (one : OneLine line) (same : ∀ label, branchLabel line = some label →
      (get labels label).getD uint64Max = (get other label).getD uint64Max) :
    parseLine ⟨visible line, []⟩ labels = parseLine ⟨visible line, []⟩ other := by
  rw [parseLine, parseLine]
  cases split : splitByChar (replaceComma ⟨visible line, []⟩) ' ' with
  | none => rfl
  | some parts =>
      rw [Option.bind_some, Option.bind_some]
      cases first : parts.part1 with
      | none => rfl
      | some operation =>
          rw [replace_comma_rest] at split
          obtain ⟨isOperation, isOperand⟩ := split_words _ [] (one_line_replace (visible line) [] (visible_one_line line one))
            parts split operation first
          rw [Option.bind_some, Option.bind_some]
          cases found : operationOf operation with
          | none => rfl
          | some op =>
              dsimp only
              cases jumps : op.isBranch with
              | false => rfl
              | true =>
                  rw [if_pos rfl, if_pos rfl, parseBranch, parseBranch]
                  cases operand : parts.part2.or parts.part3 with
                  | none => rfl
                  | some label =>
                      have target : branchLabel line = some label := by
                        rw [branchLabel, ← isOperation, found, isOperand label operand, Option.filter_some, if_pos jumps,
                          Option.map_some]
                      rw [Option.map_some, Option.map_some, same label target]

theorem parse_line_labels_iff (one : OneLine line) (operand : HasOperand line) :
    parseLine ⟨visible line, []⟩ labels = parseLine ⟨visible line, []⟩ other ↔
      ∀ label, branchLabel line = some label → (get labels label).getD uint64Max = (get other label).getD uint64Max := by
  refine ⟨fun same label target => ?_, parse_line_labels line labels other one⟩
  obtain ⟨instr, parsed⟩ := Option.isSome_iff_exists.mp ((parse_text_survives (visible line) [] labels (visible_one_line line one)).mpr operand)
  have meaning := compiled_branch labels line (visible_one_line line one) instr ⟨[], parsed⟩
  have meaning' := compiled_branch other line (visible_one_line line one) instr ⟨[], same ▸ parsed⟩
  rw [target] at meaning meaning'
  rw [← meaning.1, meaning'.1]

theorem branch_label_plain (label : Text) (target : branchLabel line = some label) : label.head? ≠ some ' ' := by
  obtain ⟨_, _, rfl⟩ := Option.map_eq_some_iff.mp target
  intro same
  have inside := List.all_eq_true.mp List.all_takeWhile ' ' (List.mem_of_mem_head? same)
  exact Bool.false_ne_true inside

theorem compile_all_congr_iff (lines : List Text) (some : ∀ line ∈ lines, (parseLine ⟨visible line, []⟩ labels).isSome) :
    compileAll labels lines = compileAll other lines ↔
      ∀ line ∈ lines, parseLine ⟨visible line, []⟩ labels = parseLine ⟨visible line, []⟩ other := by
  induction lines with
  | nil => exact iff_of_true rfl (fun _ member => absurd member List.not_mem_nil)
  | cons line lines ih =>
      have rest := ih (fun later member => some later (List.mem_cons_of_mem _ member))
      obtain ⟨instrs, compiled⟩ := Option.isSome_iff_exists.mp ((compile_all_is_some labels lines).mpr
        (fun later member => some later (List.mem_cons_of_mem _ member)))
      obtain ⟨instr, parsed⟩ := Option.isSome_iff_exists.mp (some line List.mem_cons_self)
      rw [List.forall_mem_cons, ← rest, compileAll, compileAll, parsed, compiled]
      constructor
      · intro same
        obtain ⟨instr', parsed', same⟩ := Option.bind_eq_some_iff.mp same.symm
        obtain ⟨instrs', compiled', same⟩ := Option.map_eq_some_iff.mp same
        cases same
        exact ⟨parsed'.symm, compiled'.symm⟩
      · rintro ⟨same, more⟩
        rw [← same, ← more]

end Branches

section Compiling

variable (layout : List (Nat × Text))

theorem compile_all_indented (labels : Labels) : compileAll labels (emitted kindOf (indented layout)) =
    compileAll labels (emitted kindOf (layout.map Prod.snd)) := by
  induction layout with
  | nil => rfl
  | cons entry layout ih =>
      rw [indented, List.map_cons, ← indented, List.map_cons]
      by_cases instruction : kindOf entry.2 = .instruction
      · rw [emitted_instruction kindOf _ _ ((kind_spaces_instruction entry.1 entry.2).mpr instruction),
          emitted_instruction kindOf _ _ instruction, compileAll, compileAll, ih, visible_spaces,
          parse_line_spaces entry.1 _ [] []]
      · rw [emitted_other kindOf _ _ (fun same => instruction ((kind_spaces_instruction entry.1 entry.2).mp same)),
          emitted_other kindOf _ _ instruction, ih]

theorem address_bound (lines : List Text) (label : Text) (address : Nat)
    (found : (resolve kindOf lines).address label = some address) : address ≤ lines.length := by
  by_cases defined : ∃ line ∈ lines, kindOf line = .label label
  · obtain ⟨known, same, bound⟩ := address_defined kindOf lines label defined
    rw [found] at same
    cases same
    exact Nat.le_trans bound (emitted_bound lines)
  · have missing := address_missing kindOf lines label (fun line member same => defined ⟨line, member, same⟩)
    rw [found] at missing
    cases missing

theorem table_value_small (lines : List Text) (few : lines.length < 2 ^ 63) (label : Text) :
    get (firstPass lines).labels label ≠ some uint64Max := by
  intro found
  obtain ⟨address, place, same⟩ := (first_pass_follows lines).justified _ (get_member _ label uint64Max found)
  have bound := Nat.le_trans (defined_at_bound kindOf lines label address place) (emitted_bound lines)
  have value := congrArg BitVec.toNat same
  dsimp only at value
  rw [uint64Max, BitVec.toNat_allOnes, BitVec.toNat_ofNat] at value
  omega

theorem default_injective (first second : Option U64) (other : first ≠ some uint64Max) (other' : second ≠ some uint64Max) :
    first.getD uint64Max = second.getD uint64Max ↔ first = second := by
  refine ⟨fun same => ?_, fun same => by rw [same]⟩
  cases first with
  | none =>
      cases second with
      | none => rfl
      | some value => exact absurd (congrArg some (same : uint64Max = value).symm) other'
  | some value =>
      cases second with
      | none => exact absurd (congrArg some (same : value = uint64Max)) other
      | some value' => exact congrArg some same

theorem address_injective (first second : Option Nat) (few : ∀ address, first = some address ∨ second = some address → address < 2 ^ 63) :
    first.map (BitVec.ofNat 64) = second.map (BitVec.ofNat 64) ↔ first = second := by
  refine ⟨fun same => ?_, fun same => by rw [same]⟩
  cases first with
  | none => exact (Option.map_eq_none_iff.mp same.symm).symm
  | some address =>
      obtain ⟨address', rfl, value⟩ := Option.map_eq_some_iff.mp same.symm
      have small := few address (Or.inl rfl)
      have small' := few address' (Or.inr rfl)
      have value := congrArg BitVec.toNat value
      rw [BitVec.toNat_ofNat, BitVec.toNat_ofNat] at value
      rw [show address = address' by omega]

theorem whole_indented (label : Text) (plain : label.head? ≠ some ' ') (whole : Whole (layout.map Prod.snd) label) :
    Whole (indented layout) label := by
  intro line member written defines kept
  obtain ⟨⟨n, text⟩, inside, rfl⟩ := List.mem_map.mp member
  rw [label_key_spaces] at defines
  obtain ⟨key, named, rfl⟩ := Option.map_eq_some_iff.mp defines
  cases n with
  | zero => exact whole text (List.mem_map.mpr ⟨_, inside, rfl⟩) key named kept
  | succ n => exact absurd kept.symm (indented_key n key label plain)

theorem no_label_key (line : Text) (plain : ∀ key, kindOf line ≠ .label key) : labelKey line = none :=
  Option.eq_none_iff_forall_not_mem.mpr fun written defines => plain _ (label_key_kind line written defines)

theorem turns_put (lines : List Text) (state : FirstPass) :
    (lines.foldl firstPassTurn state).labels =
      (definitions state.lineNumber lines).foldl (fun labels entry => put labels entry.1 entry.2) state.labels := by
  induction lines generalizing state with
  | nil => rfl
  | cons line lines ih =>
      rw [List.foldl_cons, ih, definitions]
      obtain ⟨blank, same⟩ | ⟨key, defines, same⟩ | ⟨instruction, same⟩ := first_pass_turn_cases state line
      · rw [same, no_label_key line (fun key label => by cases blank.symm.trans label), blank]
        rfl
      · rw [same, defines, List.foldl_cons]
      · rw [same, no_label_key line (fun key label => by cases instruction.symm.trans label), instruction]
        rfl

theorem first_pass_puts (lines : List Text) : (firstPass lines).labels = putAll (definitions 0 lines) :=
  turns_put lines ⟨hashMakeTable, 0⟩

-- What a label must keep under the indentation: its address, without the indented
-- label lines. Where a longer key is cut off to it the table may hold several
-- entries for it, and the hashes of all the keys decide which one is found.
structure Keeps (lines : List Text) (label : Text) : Prop where
  address : Whole lines label → (resolve kindOf (struck layout)).address label = (resolve kindOf lines).address label
  clipped : ¬ Whole lines label → get (putAll (definitions 0 (indented layout))) label = get (putAll (definitions 0 lines)) label

theorem indented_target_iff (lines : List Text) (same : layout.map Prod.snd = lines) (few : lines.length < 2 ^ 63) (label : Text)
    (plain : label.head? ≠ some ' ') :
    (get (firstPass lines).labels label).getD uint64Max = (get (firstPass (indented layout)).labels label).getD uint64Max ↔
      Keeps layout lines label := by
  have fewer : (indented layout).length < 2 ^ 63 := by
    rw [indented, List.length_map, ← List.length_map Prod.snd, same]
    exact few
  rw [default_injective _ _ (table_value_small lines few label) (table_value_small _ fewer label)]
  by_cases whole : Whole lines label
  · have small (lines : List Text) (few : lines.length < 2 ^ 63) (address : Nat)
        (found : (resolve kindOf lines).address label = some address) : address < 2 ^ 63 :=
      Nat.lt_of_le_of_lt (address_bound lines label address found) few
    rw [((first_pass_follows lines).whole label whole).2,
      ((first_pass_follows _).whole label (whole_indented layout label plain (same ▸ whole))).2,
      address_injective _ _ (fun address found => found.elim (small _ few address) (small _ fewer address)),
      (resolve_indented layout).address label plain]
    exact ⟨fun kept => ⟨fun _ => kept.symm, fun clipped => absurd whole clipped⟩, fun keeps => (keeps.address whole).symm⟩
  · rw [first_pass_puts, first_pass_puts]
    exact ⟨fun kept => ⟨fun every => absurd every whole, fun _ => kept.symm⟩, fun keeps => (keeps.clipped whole).symm⟩

end Compiling

section Files

variable (layout : List (Nat × Text))

theorem source_lines_indented (bytes : Text) (lines : layout.map Prod.snd = sourceLines bytes) :
    sourceLines (indented layout).flatten = indented layout := by
  induction layout generalizing bytes with
  | nil => rfl
  | cons entry layout ih =>
      obtain ⟨n, line⟩ := entry
      obtain ⟨word, tail, rfl, passes, stops⟩ := break_at (· == '\n') bytes
      have front : ∀ c ∈ spaces n ++ word, (c == '\n') = false := by
        intro c member
        obtain blank | member := List.mem_append.mp member
        · rw [List.eq_of_mem_replicate blank]
          rfl
        · exact passes c member
      rw [List.map_cons] at lines
      rw [indented, List.map_cons, List.flatten_cons, ← indented]
      dsimp only
      obtain rfl | ⟨c, after, rfl, stop⟩ := stops
      · rw [List.append_nil] at lines
        cases word with
        | nil => cases lines
        | cons c word =>
            rw [source_lines_last _ passes (List.cons_ne_nil _ _)] at lines
            obtain ⟨rfl, rest⟩ := List.cons.inj lines
            rw [List.map_eq_nil_iff.mp rest, indented, List.map_nil, List.flatten_nil, List.append_nil,
              source_lines_last _ front (List.append_ne_nil_of_right_ne_nil _ (List.cons_ne_nil _ _))]
      · rw [beq_iff_eq.mp stop, source_lines_line word after passes] at lines
        obtain ⟨rfl, rest⟩ := List.cons.inj lines
        rw [← List.append_assoc, List.append_assoc (spaces n ++ word), List.singleton_append,
          source_lines_line (spaces n ++ word) _ front, ih after rest]

def labelLoop : List (Nat × Text) := [(0, ['L', ':', '\n']), (1, ['J', 'M', 'P', ' ', 'L', '\n'])]

end Files

end CpuEmulator.Assembler
