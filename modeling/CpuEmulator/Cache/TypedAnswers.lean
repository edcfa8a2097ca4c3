import CpuEmulator.Cache.Configuration

set_option autoImplicit false

namespace CpuEmulator.Cache

open Library Assembler

section Typing

variable (convert : Bool → Text → Nat)

-- What a user may type at a question for value: lines that are no numbers and
-- numbers that are refused, each on a line, and then the number.
inductive Typed (isValid : Nat → Bool) (value : Nat) : Text → Prop where
  | number (digits : Text) (filled : digits ≠ []) (decimal : ∀ c ∈ digits, isDigit 10 c = true)
      (small : numeralValue 10 digits < 2 ^ 32) (means : numeralValue 10 digits = value) (valid : isValid value = true) :
      Typed isValid value (digits ++ ['\n'])
  | junk (c : Char) (line rest : Text) (visible : isSpace c = false) (noDigit : isDigit 10 c = false) (noSign : c ≠ '+' ∧ c ≠ '-')
      (oneLine : '\n' ∉ line) (later : Typed isValid value rest) : Typed isValid value (c :: line ++ '\n' :: rest)
  | refused (digits rest : Text) (filled : digits ≠ []) (decimal : ∀ c ∈ digits, isDigit 10 c = true)
      (small : numeralValue 10 digits < 2 ^ 32) (invalid : isValid (numeralValue 10 digits) = false)
      (later : Typed isValid value rest) : Typed isValid value (digits ++ '\n' :: rest)

theorem clear_line_one (line rest : Text) (oneLine : '\n' ∉ line) : clearLine (line ++ '\n' :: rest) = some rest := by
  rw [clear_line_append]
  induction line with
  | nil => rfl
  | cons c line ih =>
      have other : c ≠ '\n' := fun same => oneLine (same ▸ List.mem_cons_self)
      rw [clearLine, if_neg other]
      exact ih fun member => oneLine (List.mem_cons_of_mem c member)

theorem scan_junk (pad rest : Text) (c : Char) (blank : ∀ c ∈ pad, isSpace c = true) (visible : isSpace c = false)
    (noDigit : isDigit 10 c = false) (noSign : c ≠ '+' ∧ c ≠ '-') : scanU32 convert (pad ++ c :: rest) = (none, c :: rest) := by
  have spaces : (pad ++ c :: rest).dropWhile isSpace = c :: rest := by
    rw [List.dropWhile_append_of_pos blank]
    exact List.dropWhile_cons_of_neg (by rw [visible]; exact Bool.false_ne_true)
  have unsigned : dropSign (c :: rest) = (false, c :: rest) := by simp [dropSign, noSign.1, noSign.2]
  rw [scanU32, spaces, unsigned]
  dsimp only
  rw [List.takeWhile_cons_of_neg (by rw [noDigit]; exact Bool.false_ne_true), if_pos rfl]

theorem typed_yields (converts : Converts convert) (p : Parameters) (question : Question) (value : Nat) (text pad rest : Text)
    (typed : Typed question.isValid value text) (blank : ∀ c ∈ pad, isSpace c = true) :
    Dialogue.Yields (getValidInput convert p question) (pad ++ (text ++ rest)) value ('\n' :: rest) := by
  induction typed generalizing pad with
  | number digits filled decimal small means valid =>
      have scanned := scan_number convert pad digits rest blank filled decimal
      rw [converts.inRange digits small, means] at scanned
      rw [List.append_assoc]
      exact turn_taken convert p question _ _ value scanned valid
  | junk c line later visible noDigit noSign oneLine _ ih =>
      have cut : c :: line ++ '\n' :: later ++ rest = c :: (line ++ '\n' :: (later ++ rest)) := by simp
      have scanned := scan_junk convert pad (line ++ '\n' :: (later ++ rest)) c blank visible noDigit noSign
      have cleared := clear_line_one (c :: line) (later ++ rest) (by
        intro member
        rcases List.mem_cons.mp member with same | member
        · rw [← same] at visible
          cases visible
        · exact oneLine member)
      rw [cut]
      exact turn_cleared convert p question _ _ value _ _ scanned cleared (ih [] fun c none => by cases none)
  | refused digits later filled decimal small invalid _ ih =>
      have scanned := scan_number convert pad digits (later ++ rest) blank filled decimal
      rw [converts.inRange digits small] at scanned
      rw [List.append_assoc, List.cons_append]
      refine turn_refused convert p question _ _ _ value _ scanned invalid (ih ['\n'] fun c newline => ?_)
      rw [List.mem_singleton.mp newline]
      rfl

end Typing

def algorithmNumOf : ReplacementPolicy → Nat
  | .optimal => 1
  | .lru => 2

structure TypedAnswers (p : Parameters) where
  numLvls : Text
  lineSize : Text
  assoc : Fin 3 → Text
  lvlSize : Fin 3 → Text
  algorithm : Text
  levels : Typed isValidNumLvls p.numLvls numLvls
  line : Typed isValidLineSize p.lineSize lineSize
  ways : ∀ lvl, p.present lvl → Typed isValidAssoc (p.assoc lvl) (assoc lvl)
  size : ∀ lvl, p.present lvl → Typed (fun size => isValidLvlSize p size lvl) (p.lvlSize lvl) (lvlSize lvl)
  policy : Typed isValidAlgorithmNum (algorithmNumOf p.policy) algorithm

section Answers

variable (isValid : Nat → Bool) (value : Nat)

theorem number_typed (small : value < 2 ^ 32) (valid : isValid value = true) :
    Typed isValid value (digitsOf 10 (BitVec.ofNat 64 value) ++ ['\n']) := by
  have means : numeralValue 10 (digitsOf 10 (BitVec.ofNat 64 value)) = value := by
    rw [digits_of_value 10 (by decide) (by decide), BitVec.toNat_ofNat, Nat.mod_eq_of_lt (Nat.lt_trans small (by decide))]
  exact .number _ (digits_of_filled 10 _) (digits_of_valid 10 (by decide) (by decide) _) (by rw [means]; exact small) means valid

theorem checked_typed (most : Nat) (bounded : isValid value = true → value ≤ most) (least : most < 2 ^ 32)
    (valid : isValid value = true) : ∃ text, Typed isValid value text :=
  ⟨_, number_typed isValid value (Nat.lt_of_le_of_lt (bounded valid) least) valid⟩

theorem accepted_typed (p : Parameters) (accepted : Accepted p) : Nonempty (TypedAnswers p) := by
  obtain ⟨numLvls, levels⟩ := checked_typed isValidNumLvls p.numLvls 3 (fun _ => (accepted_levels p accepted).2) (by decide)
    accepted.numLvls
  obtain ⟨lineSize, line⟩ := checked_typed isValidLineSize p.lineSize 64 (fun valid => by
    simp only [isValidLineSize, Bool.or_eq_true, beq_iff_eq] at valid
    omega) (by decide) accepted.lineSize
  have ways (lvl : Fin 3) : ∃ text, p.present lvl → Typed isValidAssoc (p.assoc lvl) text := by
    by_cases present : p.present lvl
    · obtain ⟨text, typed⟩ := checked_typed isValidAssoc (p.assoc lvl) 8 (fun valid => by
        rw [isValidAssoc, Bool.and_eq_true, decide_eq_true_iff] at valid
        exact valid.2) (by decide) (accepted.assoc lvl present)
      exact ⟨text, fun _ => typed⟩
    · exact ⟨[], fun there => absurd there present⟩
  have largest : ∀ lvl, lvlMaxSize lvl < 2 ^ 32 := by decide
  have sizes (lvl : Fin 3) : ∃ text, p.present lvl → Typed (fun size => isValidLvlSize p size lvl) (p.lvlSize lvl) text := by
    by_cases present : p.present lvl
    · obtain ⟨text, typed⟩ := checked_typed (fun size => isValidLvlSize p size lvl) (p.lvlSize lvl) (lvlMaxSize lvl) (fun valid => by
        rw [isValidLvlSize, Bool.and_eq_true, decide_eq_true_iff] at valid
        exact valid.2) (largest lvl) (accepted.lvlSize lvl present)
      exact ⟨text, fun _ => typed⟩
    · exact ⟨[], fun there => absurd there present⟩
  obtain ⟨algorithm, policy⟩ := checked_typed isValidAlgorithmNum (algorithmNumOf p.policy) 2
    (fun _ => by cases p.policy <;> decide) (by decide) (by cases p.policy <;> rfl)
  exact ⟨⟨numLvls, lineSize, fun lvl => (ways lvl).choose, fun lvl => (sizes lvl).choose, algorithm, levels, line,
    fun lvl => (ways lvl).choose_spec, fun lvl => (sizes lvl).choose_spec, policy⟩⟩

end Answers

def levelText (p : Parameters) (texts : Fin 3 → Text) (lvl : Fin 3) : Text := if p.present lvl then texts lvl else []

def TypedAnswers.text {p : Parameters} (answers : TypedAnswers p) (rest : Text) : Text :=
  answers.numLvls ++ (answers.lineSize ++
    (levelText p answers.assoc 0 ++ (levelText p answers.assoc 1 ++ (levelText p answers.assoc 2 ++
      (levelText p answers.lvlSize 0 ++ (levelText p answers.lvlSize 1 ++ (levelText p answers.lvlSize 2 ++
        (answers.algorithm ++ rest))))))))

section RoundTrip

variable (convert : Bool → Text → Nat) (converts : Converts convert) (start p : Parameters)

structure Untouched : Prop where
  assoc : ∀ lvl, ¬ p.present lvl → p.assoc lvl = start.assoc lvl
  lvlSize : ∀ lvl, ¬ p.present lvl → p.lvlSize lvl = start.lvlSize lvl

def partly (assocs sizes : Nat) : Parameters where
  numLvls := p.numLvls
  lineSize := p.lineSize
  assoc lvl := if lvl.val < assocs then p.assoc lvl else start.assoc lvl
  lvlSize lvl := if lvl.val < sizes then p.lvlSize lvl else start.lvlSize lvl
  policy := start.policy

theorem next_level {α : Type} (wanted before : Fin 3 → α) (lvl : Fin 3) :
    Function.update (fun other : Fin 3 => if other.val < lvl.val then wanted other else before other) lvl (wanted lvl) =
      fun other => if other.val < lvl.val + 1 then wanted other else before other := by
  funext other
  by_cases same : other = lvl
  · rw [same, Function.update_self, if_pos (Nat.lt_succ_self _)]
  · have apart : other.val ≠ lvl.val := fun equal => same (Fin.ext equal)
    rw [Function.update_of_ne same]
    exact if_congr (by omega) rfl rfl

theorem skipped_level {α : Type} (wanted before : Fin 3 → α) (lvl : Fin 3) (kept : wanted lvl = before lvl) :
    (fun other : Fin 3 => if other.val < lvl.val then wanted other else before other) =
      fun other => if other.val < lvl.val + 1 then wanted other else before other := by
  rw [← next_level, kept]
  exact (Function.update_eq_self_iff.mpr (if_neg (Nat.lt_irrefl lvl.val)).symm).symm

theorem partly_chosen : chosen (partly start p 3 3) (algorithmNumOf p.policy) = p := by
  have policy : policyOf start.policy (algorithmNumOf p.policy) = p.policy := by cases p.policy <;> rfl
  obtain ⟨numLvls, lineSize, assoc, lvlSize, chosenPolicy⟩ := p
  rw [chosen, Parameters.mk.injEq]
  exact ⟨rfl, rfl, funext fun lvl => if_pos lvl.isLt, funext fun lvl => if_pos lvl.isLt, policy⟩

include converts

theorem assoc_typed (untouched : Untouched start p) (answers : TypedAnswers p) (lvl : Fin 3) (pad : Text)
    (blank : ∀ c ∈ pad, isSpace c = true) :
    ∃ left, (∀ c ∈ left, isSpace c = true) ∧ ∀ rest,
      Dialogue.Yields (ifPresent lvl (askAssoc convert lvl) (partly start p lvl.val 0)) (pad ++ (levelText p answers.assoc lvl ++ rest))
        (partly start p (lvl.val + 1) 0) (left ++ rest) := by
  rw [ifPresent, levelText]
  by_cases present : p.present lvl
  · have there : (partly start p lvl.val 0).present lvl := present
    rw [if_pos present, if_pos there]
    have answered := typed_yields convert converts (partly start p lvl.val 0) (assocQuestion lvl) (p.assoc lvl) (answers.assoc lvl) pad
    refine ⟨['\n'], fun c newline => by rw [List.mem_singleton.mp newline]; rfl, fun rest => ?_⟩
    have next : { partly start p lvl.val 0 with assoc := Function.update (partly start p lvl.val 0).assoc lvl (p.assoc lvl) } =
        partly start p (lvl.val + 1) 0 := by
      rw [partly, next_level p.assoc start.assoc lvl, partly]
    rw [← next]
    exact Dialogue.yields_bind _ _ _ _ _ _ _ (answered rest (answers.ways lvl present) blank) (Dialogue.yields_done _ _)
  · have absent : ¬ (partly start p lvl.val 0).present lvl := present
    rw [if_neg present, if_neg absent]
    have next : partly start p lvl.val 0 = partly start p (lvl.val + 1) 0 := by
      rw [partly, skipped_level p.assoc start.assoc lvl (untouched.assoc lvl present), partly]
    rw [← next]
    exact ⟨pad, blank, fun rest => Dialogue.yields_done _ _⟩

theorem lvl_size_typed (untouched : Untouched start p) (answers : TypedAnswers p) (lvl : Fin 3) (pad : Text)
    (blank : ∀ c ∈ pad, isSpace c = true) :
    ∃ left, (∀ c ∈ left, isSpace c = true) ∧ ∀ rest,
      Dialogue.Yields (ifPresent lvl (askLvlSize convert lvl) (partly start p 3 lvl.val)) (pad ++ (levelText p answers.lvlSize lvl ++ rest))
        (partly start p 3 (lvl.val + 1)) (left ++ rest) := by
  rw [ifPresent, levelText]
  by_cases present : p.present lvl
  · have there : (partly start p 3 lvl.val).present lvl := present
    have same : (fun size => isValidLvlSize (partly start p 3 lvl.val) size lvl) = fun size => isValidLvlSize p size lvl := by
      funext size
      simp only [isValidLvlSize, partly, if_pos lvl.isLt]
    have typed := answers.size lvl present
    rw [← same] at typed
    rw [if_pos present, if_pos there]
    have answered := typed_yields convert converts (partly start p 3 lvl.val) (lvlSizeQuestion (partly start p 3 lvl.val) lvl) (p.lvlSize lvl)
      (answers.lvlSize lvl) pad
    refine ⟨['\n'], fun c newline => by rw [List.mem_singleton.mp newline]; rfl, fun rest => ?_⟩
    have next : { partly start p 3 lvl.val with lvlSize := Function.update (partly start p 3 lvl.val).lvlSize lvl (p.lvlSize lvl) } =
        partly start p 3 (lvl.val + 1) := by
      rw [partly, next_level p.lvlSize start.lvlSize lvl, partly]
    rw [← next]
    exact Dialogue.yields_bind _ _ _ _ _ _ _ (answered rest typed blank) (Dialogue.yields_done _ _)
  · have absent : ¬ (partly start p 3 lvl.val).present lvl := present
    rw [if_neg present, if_neg absent]
    have next : partly start p 3 lvl.val = partly start p 3 (lvl.val + 1) := by
      rw [partly, skipped_level p.lvlSize start.lvlSize lvl (untouched.lvlSize lvl present), partly]
    rw [← next]
    exact ⟨pad, blank, fun rest => Dialogue.yields_done _ _⟩

theorem configuration_typed (untouched : Untouched start p) (answers : TypedAnswers p) (rest : Text) :
    Dialogue.Yields (configureCacheSimParameters convert start) (answers.text rest) p ('\n' :: rest) := by
  have nothing : ∀ c ∈ ([] : Text), isSpace c = true := fun c none => by cases none
  have newline : ∀ c ∈ ['\n'], isSpace c = true := fun c same => by rw [List.mem_singleton.mp same]; rfl
  have first : p.present 0 := by
    have levels := valid_input_ensures convert p numLvlsQuestion _ _ _
      (typed_yields convert converts p numLvlsQuestion p.numLvls answers.numLvls [] rest answers.levels nothing)
    exact first_present p levels
  have begun : ({ start with numLvls := p.numLvls, lineSize := p.lineSize } : Parameters) = partly start p 0 0 := rfl
  have always (ask : Parameters → Dialogue Char String Parameters) (assocs sizes : Nat) :
      ask (partly start p assocs sizes) = ifPresent 0 ask (partly start p assocs sizes) := (if_pos first).symm
  obtain ⟨pad0, blank0, ways0⟩ := assoc_typed convert converts start p untouched answers 0 ['\n'] newline
  obtain ⟨pad1, blank1, ways1⟩ := assoc_typed convert converts start p untouched answers 1 pad0 blank0
  obtain ⟨pad2, blank2, ways2⟩ := assoc_typed convert converts start p untouched answers 2 pad1 blank1
  obtain ⟨pad3, blank3, size0⟩ := lvl_size_typed convert converts start p untouched answers 0 pad2 blank2
  obtain ⟨pad4, blank4, size1⟩ := lvl_size_typed convert converts start p untouched answers 1 pad3 blank3
  obtain ⟨pad5, blank5, size2⟩ := lvl_size_typed convert converts start p untouched answers 2 pad4 blank4
  have algorithm := typed_yields convert converts (partly start p 3 3) algorithmQuestion (algorithmNumOf p.policy) answers.algorithm pad5 rest
    answers.policy blank5
  refine Dialogue.yields_bind _ _ _ _ _ _ _ (Dialogue.yields_tell _ _) ?_
  refine Dialogue.yields_bind _ _ _ _ _ _ _
    (typed_yields convert converts start numLvlsQuestion p.numLvls answers.numLvls [] _ answers.levels nothing) ?_
  refine Dialogue.yields_bind _ _ _ _ _ _ _
    (typed_yields convert converts start lineSizeQuestion p.lineSize answers.lineSize ['\n'] _ answers.line newline) ?_
  rw [begun, always (askAssoc convert 0)]
  refine Dialogue.yields_bind _ _ _ _ _ _ _ (ways0 _) (Dialogue.yields_bind _ _ _ _ _ _ _ (ways1 _)
    (Dialogue.yields_bind _ _ _ _ _ _ _ (ways2 _) ?_))
  rw [always (askLvlSize convert 0)]
  refine Dialogue.yields_bind _ _ _ _ _ _ _ (size0 _) (Dialogue.yields_bind _ _ _ _ _ _ _ (size1 _)
    (Dialogue.yields_bind _ _ _ _ _ _ _ (size2 _) (Dialogue.yields_bind _ _ _ _ _ _ _ algorithm ?_)))
  change Dialogue.Yields (Dialogue.done (chosen (partly start p 3 3) (algorithmNumOf p.policy))) _ _ _
  rw [partly_chosen]
  exact Dialogue.yields_done p _

end RoundTrip

section OneLevel

def oneLevel : Parameters := ⟨1, 16, Function.update (fun _ => 0) 0 2, Function.update (fun _ => 0) 0 64, .lru⟩

def oneLevelAnswers : TypedAnswers oneLevel where
  numLvls := ['x', '\n', '1', '\n']
  lineSize := ['1', '6', '\n']
  assoc _ := ['3', '\n', '2', '\n']
  lvlSize _ := ['6', '4', '\n']
  algorithm := ['2', '\n']
  levels := .junk 'x' [] ['1', '\n'] rfl rfl (by decide) (by decide)
    (.number ['1'] (by decide) (List.all_eq_true.mp rfl) (by decide) rfl rfl)
  line := .number ['1', '6'] (by decide) (List.all_eq_true.mp rfl) (by decide) rfl rfl
  ways lvl present := by
    obtain rfl : lvl = 0 := Fin.ext (Nat.lt_one_iff.mp present)
    exact .refused ['3'] ['2', '\n'] (by decide) (List.all_eq_true.mp rfl) (by decide) rfl
      (.number ['2'] (by decide) (List.all_eq_true.mp rfl) (by decide) rfl rfl)
  size lvl present := by
    obtain rfl : lvl = 0 := Fin.ext (Nat.lt_one_iff.mp present)
    exact .number ['6', '4'] (by decide) (List.all_eq_true.mp rfl) (by decide) rfl rfl
  policy := .number ['2'] (by decide) (List.all_eq_true.mp rfl) (by decide) rfl rfl

theorem one_level_untouched : Untouched staticParameters oneLevel := by
  have other (lvl : Fin 3) (absent : ¬ oneLevel.present lvl) : lvl ≠ 0 := fun same => absent (same ▸ Nat.zero_lt_one)
  refine ⟨fun lvl absent => ?_, fun lvl absent => ?_⟩
  · simp [oneLevel, staticParameters, other lvl absent]
  · simp [oneLevel, staticParameters, other lvl absent]

end OneLevel

-- The dialogue comes to the configurations the simulator can work with and to no
-- others, however many wrong tries stand before each answer.
theorem configuration_dialogue (convert : Bool → Text → Nat) (converts : Converts convert) (start : Parameters) :
    Dialogue.Answerable '\n' (configureCacheSimParameters convert start) Accepted ∧
      (∀ p, Accepted p → Nonempty (TypedAnswers p)) ∧
      ∀ p, Untouched start p → ∀ (answers : TypedAnswers p) rest,
        Dialogue.Yields (configureCacheSimParameters convert start) (answers.text rest) p ('\n' :: rest) :=
  ⟨configuration_answerable convert converts start, accepted_typed, fun p untouched answers rest =>
    configuration_typed convert converts start p untouched answers rest⟩

-- In the second input the size question refuses 48 and gets a line that is no
-- number; more can be typed that ends the dialogue.
theorem configuration_dialogue_one_level :
    Dialogue.Yields (configureCacheSimParameters storedU32 staticParameters)
      ['x', '\n', '1', '\n', '1', '6', '\n', '3', '\n', '2', '\n', '6', '4', '\n', '2', '\n'] oneLevel ['\n'] ∧
    ∃ more p unread, Dialogue.Yields (configureCacheSimParameters storedU32 staticParameters)
      (['1', ' ', '1', '6', ' ', '2', ' ', '4', '8', ' ', 'x'] ++ '\n' :: more) p unread ∧ Accepted p := by
  obtain ⟨answerable, _, typed⟩ := configuration_dialogue storedU32 stored_converts staticParameters
  obtain ⟨more, p, unread, yields⟩ := answerable.resumes ['1', ' ', '1', '6', ' ', '2', ' ', '4', '8', ' ', 'x'] (by
    rintro value unread ⟨shown, answered⟩
    cases answered)
  exact ⟨typed oneLevel one_level_untouched oneLevelAnswers [], more, p, unread, yields, answerable.ensures _ p unread yields⟩

end CpuEmulator.Cache
