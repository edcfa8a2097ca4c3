import CpuEmulator.Assembler.Indentation
import Mathlib.Logic.Equiv.Basic

set_option autoImplicit false

namespace CpuEmulator.Assembler

open Library.Addresses

def branchOf (line : Text) : Option (Opcode × Text) :=
  let text := (replaceComma ⟨visible line, []⟩).text
  ((operationOf (operationText text)).filter Opcode.isBranch).map fun op => (op, operandText text)

def branchNames (read : List Text) : List Text :=
  (emitted kindOf read).filterMap fun line => ((branchOf line).map Prod.snd).filter (· != [])

-- No label that a branch names is what a longer key is cut off to.
def Unclipped (read : List Text) : Prop := ∀ label ∈ branchNames read, Whole read label

instance (read : List Text) : Decidable (Unclipped read) :=
  inferInstanceAs (Decidable (∀ label ∈ branchNames read, Whole read label))

-- What becomes of a line when labels get new names. Only label lines and branches
-- change; a branch may be laid out anew.
inductive Renamed (rename : Text → Text) (line other : Text) : Prop where
  | label (key : Text) (defines : kindOf line = .label key) (renamed : kindOf other = .label (rename key))
  | branch (op : Opcode) (label : Text) (instruction : kindOf line = .instruction) (still : kindOf other = .instruction)
      (branches : branchOf line = some (op, label)) (renamed : branchOf other = some (op, rename label))
      (named : label ≠ []) (filled : rename label ≠ [])
  | kept (instruction : kindOf line = .instruction) (nameless : ∀ op label, branchOf line = some (op, label) → label = [])
      (same : other = line)

section BranchOf

variable (line : Text)

theorem branch_label_of : branchLabel line = (branchOf line).map Prod.snd := by
  rw [branchLabel, branchOf, Option.map_map]
  rfl

theorem branch_of_operand (op : Opcode) (label : Text) (branches : branchOf line = some (op, label)) :
    label = operandText (replaceComma ⟨visible line, []⟩).text := by
  obtain ⟨_, _, same⟩ := Option.map_eq_some_iff.mp branches
  exact (Prod.mk.inj same).2.symm

theorem parse_branch_of (labels : Labels) (op : Opcode) (label : Text) (one : OneLine line)
    (branches : branchOf line = some (op, label)) (named : label ≠ []) :
    parseLine ⟨visible line, []⟩ labels = some ⟨(get labels label).getD uint64Max, uint8Max, op.code, Mode.label.code⟩ := by
  have isLabel := branch_of_operand line op label branches
  have survives := (parse_text_survives (visible line) [] labels (visible_one_line line one)).mpr (by rw [← isLabel]; exact named)
  obtain ⟨instr, parsed⟩ := Option.isSome_iff_exists.mp survives
  rw [parsed]
  rw [parseLine, replace_comma_rest] at parsed
  obtain ⟨parts, split, parsed⟩ := Option.bind_eq_some_iff.mp parsed
  obtain ⟨operation, first, parsed⟩ := Option.bind_eq_some_iff.mp parsed
  obtain ⟨same, operand⟩ :=
    split_words _ [] (one_line_replace (visible line) [] (visible_one_line line one)) parts split operation first
  obtain ⟨known, found, pair⟩ := Option.map_eq_some_iff.mp branches
  obtain ⟨found, jumps⟩ := Option.filter_eq_some_iff.mp found
  obtain rfl : known = op := (Prod.mk.inj pair).1
  rw [same, found] at parsed
  dsimp only at parsed
  rw [if_pos jumps, parseBranch] at parsed
  obtain ⟨field, here, rfl⟩ := Option.map_eq_some_iff.mp parsed
  rw [isLabel, operand field here]

theorem parse_nameless (labels other : Labels) (one : OneLine line)
    (nameless : ∀ op label, branchOf line = some (op, label) → label = []) :
    parseLine ⟨visible line, []⟩ labels = parseLine ⟨visible line, []⟩ other := by
  by_cases operand : HasOperand line
  · apply parse_line_labels line labels other one
    intro label target
    rw [branch_label_of] at target
    obtain ⟨⟨op, known⟩, branches, _⟩ := Option.map_eq_some_iff.mp target
    have empty := nameless op known branches
    rw [branch_of_operand line op known branches] at empty
    exact absurd empty operand
  · have faults (labels : Labels) : parseLine ⟨visible line, []⟩ labels = none :=
      Option.not_isSome_iff_eq_none.mp fun survives => operand ((parse_text_survives (visible line) [] labels (visible_one_line line one)).mp survives)
    rw [faults, faults]

end BranchOf

section BranchNames

variable (read : List Text)

theorem branch_named (line : Text) (inside : line ∈ emitted kindOf read) (op : Opcode) (label : Text)
    (branches : branchOf line = some (op, label)) (filled : label ≠ []) : label ∈ branchNames read := by
  refine List.mem_filterMap.mpr ⟨line, inside, ?_⟩
  rw [branches, Option.map_some, Option.filter_some, if_pos (bne_iff_ne.mpr filled)]

theorem branch_names_append (front back : List Text) : branchNames (front ++ back) = branchNames front ++ branchNames back := by
  rw [branchNames, emitted_append, List.filterMap_append, branchNames, branchNames]

theorem unclipped_statements (unclipped : Unclipped read) : Unclipped (statements read) := by
  intro label named line member written defines kept
  rw [branchNames, emitted_statements, List.filterMap_map] at named
  have same : (fun line => ((branchOf line).map Prod.snd).filter (· != [])) ∘ visible =
      fun line => ((branchOf line).map Prod.snd).filter (· != []) := by
    funext line
    rw [Function.comp_apply, branchOf, visible_visible, branchOf]
  rw [same] at named
  obtain ⟨line, inside, rfl⟩ := List.mem_map.mp (List.mem_filter.mp member).1
  rw [labelKey, visible_visible] at defines
  exact unclipped label named line inside written defines kept

end BranchNames

theorem compile_all_related (related : Text → Text → Prop) (labels other : Labels) (lines others : List Text)
    (each : List.Forall₂ related lines others)
    (parses : ∀ line line', related line line' → line ∈ lines → line' ∈ others →
      parseLine ⟨visible line', []⟩ other = parseLine ⟨visible line, []⟩ labels) :
    compileAll other others = compileAll labels lines := by
  induction each with
  | nil => rfl
  | cons first _ ih =>
      rw [compileAll, compileAll, parses _ _ first List.mem_cons_self List.mem_cons_self,
        ih fun line line' same member member' => parses line line' same (List.mem_cons_of_mem _ member) (List.mem_cons_of_mem _ member')]

section Renaming

variable (rename : Text → Text)

theorem renamed_kind (line other : Text) (renamed : Renamed rename line other) :
    kindOf other = (kindOf line).map rename := by
  cases renamed with
  | label key defines renamed =>
      rw [defines, renamed]
      rfl
  | branch op label instruction still =>
      rw [instruction, still]
      rfl
  | kept instruction _ same =>
      rw [same, instruction]
      rfl

theorem renamed_emitted (lines others : List Text) (each : List.Forall₂ (Renamed rename) lines others) :
    List.Forall₂ (Renamed rename) (emitted kindOf lines) (emitted kindOf others) := by
  induction each with
  | nil => exact .nil
  | @cons line other lines others first _ ih =>
      have kinds := renamed_kind rename line other first
      by_cases instruction : kindOf line = .instruction
      · rw [emitted_instruction kindOf line lines instruction,
          emitted_instruction kindOf other others (by rw [kinds, instruction]; rfl)]
        exact .cons first ih
      · have different : kindOf other ≠ .instruction := by
          rw [kinds]
          cases known : kindOf line with
          | blank | label => exact fun same => by cases same
          | instruction => exact absurd known instruction
        rw [emitted_other kindOf line lines instruction, emitted_other kindOf other others different]
        exact ih

theorem renamed_target (injective : Function.Injective rename) (lines others : List Text)
    (each : List.Forall₂ (Renamed rename) lines others) (label : Text) (whole : Whole lines label)
    (whole' : Whole others (rename label)) : get (firstPass others).labels (rename label) = get (firstPass lines).labels label := by
  have relabelled := resolve_relabelled kindOf kindOf rename injective lines others (each.imp (renamed_kind rename))
  rw [((first_pass_follows others).whole _ whole').2, ((first_pass_follows lines).whole _ whole).2, relabelled.address]

theorem renamed_assembled (injective : Function.Injective rename) (lines others : List Text)
    (one : ∀ line ∈ lines, OneLine line) (one' : ∀ line ∈ others, OneLine line) (unclipped : Unclipped lines)
    (unclipped' : Unclipped others) (each : List.Forall₂ (Renamed rename) lines others) : assembled others = assembled lines := by
  rw [assembled, assembled]
  congr 1
  apply compile_all_related (Renamed rename) _ _ _ _ (renamed_emitted rename lines others each)
  intro line other renamed member member'
  have oneLine := one line (List.mem_filter.mp member).1
  cases renamed with
  | label key defines =>
      have instruction := of_decide_eq_true (List.mem_filter.mp member).2
      rw [defines] at instruction
      cases instruction
  | branch op label _ _ branches renamed named filled =>
      rw [parse_branch_of line _ op label oneLine branches named,
        parse_branch_of other _ op (rename label) (one' other (List.mem_filter.mp member').1) renamed filled,
        renamed_target rename injective lines others each label (unclipped label (branch_named lines line member op label branches named))
          (unclipped' _ (branch_named others other member' op _ renamed filled))]
  | kept _ nameless same =>
      rw [same]
      exact parse_nameless line _ _ oneLine nameless

theorem statements_one_line (bytes : Text) : ∀ line ∈ statements (reads (maxLen - 2) bytes), OneLine line := by
  intro line member
  obtain ⟨read, inside, rfl⟩ := List.mem_map.mp (List.mem_filter.mp member).1
  exact visible_one_line read (reads_one_line bytes read inside)

end Renaming

end CpuEmulator.Assembler
