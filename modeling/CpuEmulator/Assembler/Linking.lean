import CpuEmulator.Assembler.Renaming

set_option autoImplicit false

namespace CpuEmulator.Assembler

open Library.Addresses

-- An instruction moved n places up: branches lead as many places further.
def relocated (n : Nat) (instr : Instruction) : Instruction :=
  if (opcodeOf instr.opcode).any Opcode.isBranch then { instr with operand2 := instr.operand2 + BitVec.ofNat 64 n } else instr

def labelNames (read : List Text) : List Text := read.filterMap fun line => (labelKey line).map (List.take keyRoom)

-- Two sources in one file. A whole program comes back with memory enough when both
-- parts come back, and then it is made of theirs.
structure Linked (source other joined : SourceFile) : Prop where
  instructions : ∀ memory memory' memory'' program second whole, parseAssembly memory (some source) = .ok program →
    parseAssembly memory' (some other) = .ok second → parseAssembly memory'' (some joined) = .ok whole →
    whole.instructions =
      program.instructions.dropLast ++ second.instructions.map (relocated (program.instructions.length - 1))
  returned : ∀ memory memory' memory'', Allocates memory → Allocates memory' → Allocates memory'' →
    ((∃ whole, parseAssembly memory'' (some joined) = .ok whole) ↔
      (∃ program, parseAssembly memory (some source) = .ok program) ∧ ∃ second, parseAssembly memory' (some other) = .ok second)

section Files

theorem reads_filled (spare : Nat) (c : Char) (unread : Text) : reads spare (c :: unread) ≠ [] := by
  rw [reads]
  split
  · exact List.cons_ne_nil _ _
  · split <;> exact List.cons_ne_nil _ _

theorem reads_joined (spare : Nat) (front back : Text) (ended : front.getLast? = some '\n') :
    reads spare (front ++ back) = reads spare front ++ reads (maxLen - 2) back := by
  induction front generalizing spare with
  | nil => cases ended
  | cons c front ih =>
      rw [List.cons_append]
      cases front with
      | nil =>
          obtain rfl : c = '\n' := Option.some.inj ended
          rw [List.nil_append, reads_ends spare _ back (Or.inl rfl), reads_ends spare _ [] (Or.inl rfl)]
          rfl
      | cons d front =>
          rw [List.getLast?_cons_cons] at ended
          by_cases newline : c = '\n'
          · rw [reads_ends spare c _ (Or.inl newline), reads_ends spare c _ (Or.inl newline), ih _ ended, List.cons_append]
          · cases spare with
            | zero => rw [reads_ends 0 c _ (Or.inr rfl), reads_ends 0 c _ (Or.inr rfl), ih _ ended, List.cons_append]
            | succ spare =>
                rw [reads_goes_on spare c _ newline, reads_goes_on spare c _ newline, ih spare ended]
                cases read : reads spare (d :: front) with
                | nil => exact absurd read (reads_filled spare d front)
                | cons line lines => rfl

end Files

section Code

theorem compile_all_append (labels : Labels) (front back : List Text) : compileAll labels (front ++ back) =
    (compileAll labels front).bind fun first => (compileAll labels back).map (first ++ ·) := by
  induction front with
  | nil =>
      rw [List.nil_append, compileAll, Option.bind_some]
      exact (congrFun Option.map_id _).symm
  | cons line front ih =>
      rw [List.cons_append, compileAll, compileAll, ih, Option.bind_assoc]
      congr 1
      funext instr
      cases compileAll labels front with
      | none => rfl
      | some first => cases compileAll labels back <;> rfl

theorem relocated_branch (n : Nat) (op : Opcode) (jumps : op.isBranch = true) (target : U64) (first mode : U8) :
    relocated n ⟨target, first, op.code, mode⟩ = ⟨target + BitVec.ofNat 64 n, first, op.code, mode⟩ := by
  rw [relocated, opcode_of_code, Option.any_some, if_pos jumps]

theorem relocated_other (n : Nat) (instr : Instruction) (plain : ∀ op : Opcode, op.isBranch = true → instr.opcode ≠ op.code) :
    relocated n instr = instr := by
  rw [relocated]
  cases decoded : opcodeOf instr.opcode with
  | none => rfl
  | some op =>
      have coded : op.code = instr.opcode := by
        rw [opcodeOf] at decoded
        have found := List.find?_some decoded
        exact beq_iff_eq.mp found
      cases jumps : op.isBranch with
      | true => exact absurd coded.symm (plain op jumps)
      | false => exact if_neg (by rw [Option.any_some, jumps]; exact Bool.false_ne_true)

section Lines

variable (line : Text) (labels other : Labels) (one : OneLine line)

include one

theorem parse_same_targets (same : ∀ op label, branchOf line = some (op, label) → label ≠ [] → get other label = get labels label) :
    parseLine ⟨visible line, []⟩ other = parseLine ⟨visible line, []⟩ labels := by
  by_cases named : ∃ op label, branchOf line = some (op, label) ∧ label ≠ []
  · obtain ⟨op, label, branches, filled⟩ := named
    rw [parse_branch_of line other op label one branches filled, parse_branch_of line labels op label one branches filled,
      same op label branches filled]
  · exact parse_nameless line other labels one fun op label branches => by_contra fun filled => named ⟨op, label, branches, filled⟩

theorem parse_relocated (n : Nat) (moved : ∀ op label, branchOf line = some (op, label) → label ≠ [] →
      ∃ target, get labels label = some target ∧ get other label = some (target + BitVec.ofNat 64 n)) :
    parseLine ⟨visible line, []⟩ other = (parseLine ⟨visible line, []⟩ labels).map (relocated n) := by
  by_cases named : ∃ op label, branchOf line = some (op, label) ∧ label ≠ []
  · obtain ⟨op, label, branches, filled⟩ := named
    obtain ⟨target, before, after⟩ := moved op label branches filled
    have jumps : op.isBranch = true := by
      obtain ⟨known, found, pair⟩ := Option.map_eq_some_iff.mp branches
      rw [← (Prod.mk.inj pair).1]
      exact (Option.filter_eq_some_iff.mp found).2
    rw [parse_branch_of line other op label one branches filled, parse_branch_of line labels op label one branches filled, before,
      after, Option.map_some, relocated_branch n op jumps, Option.getD_some, Option.getD_some]
  · have nameless (op : Opcode) (label : Text) (branches : branchOf line = some (op, label)) : label = [] :=
      by_contra fun filled => named ⟨op, label, branches, filled⟩
    rw [parse_nameless line other labels one nameless]
    cases parsed : parseLine ⟨visible line, []⟩ labels with
    | none => rfl
    | some instr =>
        have operand := (parse_text_survives (visible line) [] labels (visible_one_line line one)).mp (by rw [parsed]; rfl)
        have meaning := compiled_branch labels line (visible_one_line line one) instr ⟨[], parsed⟩
        cases branches : branchOf line with
        | some found =>
            have empty := nameless found.1 found.2 branches
            rw [branch_of_operand line found.1 found.2 branches] at empty
            exact absurd empty operand
        | none =>
            rw [branch_label_of, branches, Option.map_none] at meaning
            rw [Option.map_some, relocated_other n instr meaning]

end Lines

theorem compile_all_relocated (labels other : Labels) (n : Nat) (lines : List Text)
    (each : ∀ line ∈ lines, parseLine ⟨visible line, []⟩ other = (parseLine ⟨visible line, []⟩ labels).map (relocated n)) :
    compileAll other lines = (compileAll labels lines).map (List.map (relocated n)) := by
  induction lines with
  | nil => rfl
  | cons line lines ih =>
      rw [compileAll, compileAll, each line List.mem_cons_self, ih fun later member => each later (List.mem_cons_of_mem _ member)]
      cases parseLine ⟨visible line, []⟩ labels with
      | none => rfl
      | some instr => cases compileAll labels lines <;> rfl

end Code

section Linking

variable (front back : List Text)

theorem label_names_defined (label : Text) : label ∈ labelNames back ↔ Defined back label := by
  simp only [labelNames, Defined, List.mem_filterMap, Option.map_eq_some_iff]

theorem joined_front_target (label : Text) (whole : Whole front label) (apart : label ∉ labelNames back) :
    get (firstPass (front ++ back)).labels label = get (firstPass front).labels label := by
  rw [label_names_defined] at apart
  have missing := address_missing kindOf back label fun line member same => apart ((defined_iff back label).mpr ⟨line, member, same⟩)
  have joined : Whole (front ++ back) label := (whole_append front back label).mpr
    ⟨whole, fun line member key written kept => absurd ⟨line, member, key, written, kept⟩ apart⟩
  rw [((first_pass_follows _).whole label joined).2, ((first_pass_follows _).whole label whole).2, address_joined, missing,
    Option.map_none, Option.none_or]

theorem joined_back_target (label : Text) (whole : Whole (front ++ back) label) (defined : label ∈ labelNames back) :
    ∃ target, get (firstPass back).labels label = some target ∧
      get (firstPass (front ++ back)).labels label = some (target + BitVec.ofNat 64 (emitted kindOf front).length) := by
  rw [label_names_defined] at defined
  obtain ⟨address, found, _⟩ := address_defined kindOf back label ((defined_iff back label).mp defined)
  refine ⟨BitVec.ofNat 64 address, ?_, ?_⟩
  · rw [((first_pass_follows _).whole label ((whole_append front back label).mp whole).2).2, found, Option.map_some]
  · rw [((first_pass_follows _).whole label whole).2, address_joined, found, Option.map_some, Option.some_or, Option.map_some,
      Nat.add_comm, BitVec.ofNat_add]

theorem assembled_joined (one : ∀ line ∈ front, OneLine line) (one' : ∀ line ∈ back, OneLine line)
    (unclipped : Unclipped (front ++ back)) (apart : ∀ label ∈ branchNames front, label ∉ labelNames back)
    (closed : ∀ label ∈ branchNames back, label ∈ labelNames back) :
    assembled (front ++ back) = (assembled front).bind fun first => (assembled back).map fun second =>
      first.dropLast ++ second.map (relocated (first.length - 1)) := by
  rw [Unclipped, branch_names_append] at unclipped
  have kept : compileAll (firstPass (front ++ back)).labels (emitted kindOf front) =
      compileAll (firstPass front).labels (emitted kindOf front) := by
    refine compile_all_related Eq _ _ _ _ (List.forall₂_same.mpr fun _ _ => rfl) fun line line' same member _ => ?_
    rw [← same]
    exact parse_same_targets line _ _ (one line (List.mem_filter.mp member).1) fun op label branches filled => by
      have named := branch_named front line member op label branches filled
      exact joined_front_target front back label ((whole_append front back label).mp (unclipped label (List.mem_append_left _ named))).1
        (apart label named)
  have moved : compileAll (firstPass (front ++ back)).labels (emitted kindOf back) =
      (compileAll (firstPass back).labels (emitted kindOf back)).map (List.map (relocated (emitted kindOf front).length)) :=
    compile_all_relocated _ _ _ _ fun line member =>
      parse_relocated line _ _ (one' line (List.mem_filter.mp member).1) _ fun op label branches filled => by
        have named := branch_named back line member op label branches filled
        exact joined_back_target front back label (unclipped label (List.mem_append_right _ named)) (closed label named)
  have halts (n : Nat) : relocated n haltInstr = haltInstr := rfl
  rw [assembled, assembled, assembled, emitted_append, compile_all_append, kept, moved]
  cases first : compileAll (firstPass front).labels (emitted kindOf front) with
  | none => rfl
  | some instrs =>
      have counted : instrs.length = (emitted kindOf front).length :=
        ((compile_all_iff _ _ _).mp first).length_eq.symm
      cases compileAll (firstPass back).labels (emitted kindOf back) with
      | none => rfl
      | some others =>
          rw [Option.map_some, Option.map_some, Option.bind_some, Option.map_some, Option.bind_some, Option.map_some, Option.map_some,
            List.dropLast_concat, List.length_append, List.length_singleton, Nat.add_sub_cancel, Option.map_some, List.map_append,
            List.map_singleton, halts, List.append_assoc, counted]

theorem assembled_reads_iff (memory : Nat → Memory) (file : SourceFile) (allocates : Allocates memory) :
    (∃ program, parseAssembly memory (some file) = .ok program) ↔ (assembled (reads (maxLen - 2) file.bytes)).isSome := by
  obtain ⟨idle, turned, empty⟩ := turns_reads _ file.bytes (Nat.lt_succ_self _)
  rw [returned_iff_assembled memory file _ turned allocates, assembled_idle _ idle empty]

theorem assembled_reads (memory : Nat → Memory) (file : SourceFile) (program : Program)
    (returned : parseAssembly memory (some file) = .ok program) :
    assembled (reads (maxLen - 2) file.bytes) = some program.instructions := by
  obtain ⟨idle, turned, empty⟩ := turns_reads _ file.bytes (Nat.lt_succ_self _)
  rw [← assembled_of_returned memory file _ turned program returned, assembled_idle _ idle empty]

end Linking

end CpuEmulator.Assembler
