import CpuEmulator.Assembler.Operands
import CpuEmulator.Cache.Geometry
import CpuEmulator.Library.Dialogue

set_option autoImplicit false

namespace CpuEmulator.Cache

open Library Assembler

-- scanf("%u"): white space, a sign, decimal digits. convert is what it stores for
-- the sign and the digits; without digits it stores nothing.
def scanU32 (convert : Bool → Text → Nat) (stdin : Text) : Option Nat × Text :=
  let (negative, unsigned) := dropSign (stdin.dropWhile isSpace)
  let digits := unsigned.takeWhile (isDigit 10)
  if digits = [] then (none, unsigned) else (some (convert negative digits), unsigned.dropWhile (isDigit 10))

-- while (getchar() != '\n'); it does not end when the input does.
def clearLine : Text → Option Text
  | [] => none
  | c :: rest => if c = '\n' then some rest else clearLine rest

-- The arguments of get_valid_input but the target; lvl is 0 where it is ignored.
structure Question where
  prompt : String
  invalidNumMsg : String
  isValid : Nat → Bool
  lvl : Nat
  step : Nat

def Question.line (question : Question) : String :=
  if question.lvl = 0 then toString question.step ++ ")" ++ question.prompt
  else toString question.step ++ "." ++ toString question.lvl ++ ")" ++ question.prompt

def invalidInput : String := "Invalid input! Please enter a number.\n"

def Question.refusal (p : Parameters) (question : Question) : String :=
  if question.step ≠ 4 then question.invalidNumMsg ++ "\n"
  else if question.lvl = 1 then question.invalidNumMsg ++ toString (p.assoc 0 * p.lineSize) ++ " i 2048\n"
  else if question.lvl = 2 then question.invalidNumMsg ++ toString (p.assoc 1 * p.lineSize) ++ " i 4096\n"
  else if question.lvl = 3 then question.invalidNumMsg ++ toString (p.assoc 2 * p.lineSize) ++ " i 8192\n"
  else ""

-- The body of the loop in get_valid_input; again is the rest of the loop.
def askTurn (convert : Bool → Text → Nat) (p : Parameters) (question : Question) (again : Dialogue Char String Nat) :
    Dialogue Char String Nat := fun stdin =>
  match scanU32 convert stdin with
  | (none, unread) =>
      match clearLine unread with
      | none => .waiting [question.line, invalidInput]
      | some rest => (again rest).behind [question.line, invalidInput]
  | (some value, unread) =>
      if !question.isValid value then (again unread).behind [question.line, question.refusal p]
      else .answered value unread [question.line]

-- Each turn reads at least one character, so one turn more than there are
-- characters is never begun.
def askLoop (convert : Bool → Text → Nat) (p : Parameters) (question : Question) : Nat → Dialogue Char String Nat
  | 0 => fun _ => .waiting []
  | fuel + 1 => askTurn convert p question (askLoop convert p question fuel)

def getValidInput (convert : Bool → Text → Nat) (p : Parameters) (question : Question) : Dialogue Char String Nat := fun stdin =>
  askLoop convert p question (stdin.length + 1) stdin

def banner : String :=
  "\nSimulator keš memorije\n============================================================================\n\n"

def numLvlsQuestion : Question :=
  ⟨" Unesite broj nivoa keš memorije (1-3): ", "Broj nivoa keša mora da bude u opsegu 1-3!", isValidNumLvls, 0, 1⟩

def lineSizeQuestion : Question :=
  ⟨" Unesite veličinu keš linije: ", "Veličina keš linije mora biti 16, 32 ili 64!", isValidLineSize, 0, 2⟩

def ordinal (lvl : Fin 3) : String :=
  match lvl with
  | 0 => "prvog"
  | 1 => "drugog"
  | 2 => "treceg"

def assocQuestion (lvl : Fin 3) : Question :=
  ⟨" Unesite asocijativnost " ++ ordinal lvl ++ " nivoa keš memorije (stepen broja 2, max 8): ",
    "Asocijativnost mora biti 1, 2, 4 ili 8!", isValidAssoc, lvl.val + 1, 3⟩

def lvlSizeQuestion (p : Parameters) (lvl : Fin 3) : Question :=
  ⟨" Unesite veličinu " ++ ordinal lvl ++ " nivoa keš memorije: ", "Veličina ovog nivoa mora biti stepen broja 2 između ",
    fun size => isValidLvlSize p size lvl, lvl.val + 1, 4⟩

def isValidAlgorithmNum (algorithmNum : Nat) : Bool := algorithmNum == 1 || algorithmNum == 2

def algorithmQuestion : Question :=
  ⟨" Odaberite algoritam zamjene (unesite 1 za optimalni ili 2 za LRU): ", "Unesite 1 za optimalni ili 2 za LRU!",
    isValidAlgorithmNum, 0, 5⟩

def askAssoc (convert : Bool → Text → Nat) (lvl : Fin 3) (p : Parameters) : Dialogue Char String Parameters :=
  (getValidInput convert p (assocQuestion lvl)).bind fun assoc => Dialogue.done { p with assoc := Function.update p.assoc lvl assoc }

def askLvlSize (convert : Bool → Text → Nat) (lvl : Fin 3) (p : Parameters) : Dialogue Char String Parameters :=
  (getValidInput convert p (lvlSizeQuestion p lvl)).bind fun size => Dialogue.done { p with lvlSize := Function.update p.lvlSize lvl size }

-- if (num_lvls > lvl) around a question about a level.
def ifPresent (lvl : Fin 3) (ask : Parameters → Dialogue Char String Parameters) (p : Parameters) : Dialogue Char String Parameters :=
  if p.present lvl then ask p else Dialogue.done p

def policyOf (policy : ReplacementPolicy) (algorithmNum : Nat) : ReplacementPolicy :=
  if algorithmNum = 1 then .optimal else if algorithmNum = 2 then .lru else policy

def chosen (p : Parameters) (algorithmNum : Nat) : Parameters := { p with policy := policyOf p.policy algorithmNum }

def configureCacheSimParameters (convert : Bool → Text → Nat) (p : Parameters) : Dialogue Char String Parameters :=
  (Dialogue.tell [banner]).bind fun _ =>
  (getValidInput convert p numLvlsQuestion).bind fun numLvls =>
  (getValidInput convert p lineSizeQuestion).bind fun lineSize =>
  (askAssoc convert 0 { p with numLvls := numLvls, lineSize := lineSize }).bind fun p =>
  (ifPresent 1 (askAssoc convert 1) p).bind fun p =>
  (ifPresent 2 (askAssoc convert 2) p).bind fun p =>
  (askLvlSize convert 0 p).bind fun p =>
  (ifPresent 1 (askLvlSize convert 1) p).bind fun p =>
  (ifPresent 2 (askLvlSize convert 2) p).bind fun p =>
  (getValidInput convert p algorithmQuestion).bind fun algorithmNum =>
  Dialogue.done (chosen p algorithmNum)

def staticParameters : Parameters := ⟨0, 0, fun _ => 0, fun _ => 0, .lru⟩

section Scanning

variable (convert : Bool → Text → Nat)

theorem drop_sign_length (text : Text) : (dropSign text).2.length ≤ text.length := by
  unfold dropSign
  split <;> simp

theorem drop_sign_append (text more : Text) (filled : text ≠ []) :
    dropSign (text ++ more) = ((dropSign text).1, (dropSign text).2 ++ more) := by
  cases text with
  | nil => exact absurd rfl filled
  | cons c rest =>
      rw [List.cons_append]
      by_cases plus : c = '+'
      · subst plus
        rfl
      · by_cases minus : c = '-'
        · subst minus
          rfl
        · simp [dropSign, plus, minus]

theorem scan_length (stdin unread : Text) (value : Option Nat) (scanned : scanU32 convert stdin = (value, unread)) :
    unread.length + value.toList.length ≤ stdin.length := by
  have spaces := (List.dropWhile_sublist isSpace (l := stdin)).length_le
  have sign := drop_sign_length (stdin.dropWhile isSpace)
  rw [scanU32] at scanned
  generalize dropSign (stdin.dropWhile isSpace) = body at sign scanned
  obtain ⟨negative, unsigned⟩ := body
  dsimp only at sign scanned
  have split := congrArg List.length (List.takeWhile_append_dropWhile (p := isDigit 10) (l := unsigned))
  rw [List.length_append] at split
  split at scanned
  · obtain ⟨rfl, rfl⟩ := Prod.mk.inj scanned
    simp only [Option.toList_none, List.length_nil]
    omega
  · rename_i filled
    obtain ⟨rfl, rfl⟩ := Prod.mk.inj scanned
    have positive := List.length_pos_iff.mpr filled
    simp only [Option.toList_some, List.length_singleton]
    omega

theorem clear_line_length (text rest : Text) (cleared : clearLine text = some rest) : rest.length < text.length := by
  induction text with
  | nil => cases cleared
  | cons c text ih =>
      rw [clearLine] at cleared
      split at cleared
      · obtain rfl := Option.some.inj cleared
        exact Nat.lt_succ_self _
      · exact Nat.lt_succ_of_lt (ih cleared)

theorem clear_line_append (text more : Text) :
    clearLine (text ++ '\n' :: more) = some ((clearLine text).elim more (· ++ '\n' :: more)) := by
  induction text with
  | nil => rfl
  | cons c text ih =>
      rw [List.cons_append, clearLine, clearLine]
      split
      · rfl
      · exact ih

theorem digits_append (text more : Text) :
    (text ++ '\n' :: more).takeWhile (isDigit 10) = text.takeWhile (isDigit 10) ∧
      (text ++ '\n' :: more).dropWhile (isDigit 10) = text.dropWhile (isDigit 10) ++ '\n' :: more := by
  induction text with
  | nil => exact ⟨rfl, rfl⟩
  | cons c text ih =>
      rw [List.cons_append, List.takeWhile_cons, List.takeWhile_cons, List.dropWhile_cons, List.dropWhile_cons]
      split
      · exact ⟨congrArg (c :: ·) ih.1, ih.2⟩
      · exact ⟨rfl, rfl⟩

theorem scan_append (stdin more : Text) :
    (stdin.dropWhile isSpace ≠ [] →
      scanU32 convert (stdin ++ '\n' :: more) = ((scanU32 convert stdin).1, (scanU32 convert stdin).2 ++ '\n' :: more)) ∧
    (stdin.dropWhile isSpace = [] →
      scanU32 convert (stdin ++ '\n' :: more) = scanU32 convert more ∧ scanU32 convert stdin = (none, [])) := by
  constructor
  · intro filled
    have spaces : (stdin ++ '\n' :: more).dropWhile isSpace = stdin.dropWhile isSpace ++ '\n' :: more := by
      rw [List.dropWhile_append, if_neg (by rwa [List.isEmpty_iff])]
    rw [scanU32, spaces, drop_sign_append _ _ filled, scanU32]
    generalize dropSign (stdin.dropWhile isSpace) = body
    obtain ⟨negative, unsigned⟩ := body
    obtain ⟨taken, dropped⟩ := digits_append unsigned more
    dsimp only
    rw [taken, dropped]
    split <;> rfl
  · intro blank
    have spaces : (stdin ++ '\n' :: more).dropWhile isSpace = more.dropWhile isSpace := by
      rw [List.dropWhile_append, if_pos (by rw [blank]; rfl)]
      rfl
    refine ⟨?_, ?_⟩
    · rw [scanU32, spaces, scanU32]
    · rw [scanU32, blank]
      rfl

theorem scan_number (pad digits rest : Text) (blank : ∀ c ∈ pad, isSpace c = true) (filled : digits ≠ [])
    (valid : ∀ c ∈ digits, isDigit 10 c = true) :
    scanU32 convert (pad ++ (digits ++ '\n' :: rest)) = (some (convert false digits), '\n' :: rest) := by
  have spaces : (pad ++ (digits ++ '\n' :: rest)).dropWhile isSpace = digits ++ '\n' :: rest := by
    rw [List.dropWhile_append_of_pos blank]
    cases digits with
    | nil => exact absurd rfl filled
    | cons c digits =>
        exact List.dropWhile_cons_of_neg (by
          rw [late_not_space c (digit_code 10 c (by decide) (valid c List.mem_cons_self))]
          exact Bool.false_ne_true)
  have unsigned : dropSign digits = (false, digits) := by
    cases digits with
    | nil => rfl
    | cons c digits =>
        have digit := valid c List.mem_cons_self
        have plus := digit_not 10 c '+' (by decide) digit (by decide)
        have minus := digit_not 10 c '-' (by decide) digit (by decide)
        simp [dropSign, plus, minus]
  obtain ⟨taken, dropped⟩ := digits_append digits rest
  have all : digits.takeWhile (isDigit 10) = digits := List.takeWhile_eq_self_iff.mpr valid
  have none : digits.dropWhile (isDigit 10) = [] := List.dropWhile_eq_nil_iff.mpr valid
  rw [scanU32, spaces, drop_sign_append digits _ filled, unsigned]
  dsimp only
  rw [taken, dropped, all, none, if_neg filled, List.nil_append]

end Scanning

section Asking

variable (convert : Bool → Text → Nat) (p : Parameters) (question : Question)

theorem ask_turn_congr (again other : Dialogue Char String Nat) (stdin : Text)
    (same : ∀ rest, rest.length < stdin.length → again rest = other rest) :
    askTurn convert p question again stdin = askTurn convert p question other stdin := by
  rw [askTurn, askTurn]
  cases scanned : scanU32 convert stdin with
  | mk value unread =>
      have shorter := scan_length convert stdin unread value scanned
      cases value with
      | none =>
          dsimp only
          cases cleared : clearLine unread with
          | none => rfl
          | some rest =>
              have fewer := clear_line_length unread rest cleared
              simp only [Option.toList_none, List.length_nil] at shorter
              exact congrArg (Asked.behind _) (same rest (by omega))
      | some value =>
          simp only [Option.toList_some, List.length_singleton] at shorter
          dsimp only
          rw [same unread (by omega)]

theorem ask_enough (fuel other : Nat) (stdin : Text) (enough : stdin.length < fuel) (too : stdin.length < other) :
    askLoop convert p question fuel stdin = askLoop convert p question other stdin := by
  induction fuel generalizing other stdin with
  | zero => exact absurd enough (Nat.not_lt_zero _)
  | succ fuel ih =>
      cases other with
      | zero => exact absurd too (Nat.not_lt_zero _)
      | succ other => exact ask_turn_congr convert p question _ _ stdin fun rest shorter => ih other rest (by omega) (by omega)

theorem get_valid_input_turn (stdin : Text) :
    getValidInput convert p question stdin = askTurn convert p question (getValidInput convert p question) stdin :=
  ask_turn_congr convert p question _ _ stdin fun rest shorter => ask_enough convert p question _ _ rest shorter (Nat.lt_succ_self _)

inductive Turn (stdin : Text) : Asked Char String Nat → Prop where
  | taken (value : Nat) (unread : Text) (scanned : scanU32 convert stdin = (some value, unread)) (valid : question.isValid value = true) :
      Turn stdin (.answered value unread [question.line])
  | refused (value : Nat) (unread : Text) (scanned : scanU32 convert stdin = (some value, unread))
      (invalid : question.isValid value = false) (shorter : unread.length < stdin.length) :
      Turn stdin ((getValidInput convert p question unread).behind [question.line, question.refusal p])
  | cleared (unread rest : Text) (scanned : scanU32 convert stdin = (none, unread)) (cleared : clearLine unread = some rest)
      (shorter : rest.length < stdin.length) :
      Turn stdin ((getValidInput convert p question rest).behind [question.line, invalidInput])
  | starved (unread : Text) (scanned : scanU32 convert stdin = (none, unread)) (cleared : clearLine unread = none) :
      Turn stdin (.waiting [question.line, invalidInput])

theorem get_valid_input_turned (stdin : Text) : Turn convert p question stdin (getValidInput convert p question stdin) := by
  rw [get_valid_input_turn, askTurn]
  cases scanned : scanU32 convert stdin with
  | mk value unread =>
      have shorter := scan_length convert stdin unread value scanned
      cases value with
      | none =>
          dsimp only
          cases cleared : clearLine unread with
          | none => exact .starved unread scanned cleared
          | some rest =>
              have fewer := clear_line_length unread rest cleared
              exact .cleared unread rest scanned cleared (Nat.lt_of_lt_of_le fewer (by simpa using shorter))
      | some value =>
          dsimp only
          cases valid : question.isValid value with
          | true => exact .taken value unread scanned valid
          | false => exact .refused value unread scanned valid (Nat.lt_of_succ_le (by simpa using shorter))

variable (stdin unread more : Text) (value : Nat)

theorem turn_taken (scanned : scanU32 convert stdin = (some value, unread)) (valid : question.isValid value = true) :
    Dialogue.Yields (getValidInput convert p question) stdin value unread := by
  refine ⟨[question.line], ?_⟩
  rw [get_valid_input_turn, askTurn, scanned]
  dsimp only
  rw [valid]
  rfl

theorem turn_refused (refused result : Nat) (after : Text) (scanned : scanU32 convert stdin = (some refused, unread))
    (invalid : question.isValid refused = false) (yields : Dialogue.Yields (getValidInput convert p question) unread result after) :
    Dialogue.Yields (getValidInput convert p question) stdin result after := by
  obtain ⟨shown, answered⟩ := yields
  refine ⟨[question.line, question.refusal p] ++ shown, ?_⟩
  rw [get_valid_input_turn, askTurn, scanned]
  dsimp only
  rw [invalid, answered]
  rfl

theorem turn_cleared (rest after : Text) (scanned : scanU32 convert stdin = (none, unread)) (cleared : clearLine unread = some rest)
    (yields : Dialogue.Yields (getValidInput convert p question) rest value after) :
    Dialogue.Yields (getValidInput convert p question) stdin value after := by
  obtain ⟨shown, answered⟩ := yields
  refine ⟨[question.line, invalidInput] ++ shown, ?_⟩
  rw [get_valid_input_turn, askTurn, scanned]
  dsimp only
  rw [cleared]
  dsimp only
  rw [answered]
  rfl

theorem scanned_filled (scanned : scanU32 convert stdin = (some value, unread)) : stdin.dropWhile isSpace ≠ [] := by
  intro blank
  rw [((scan_append convert stdin []).2 blank).2] at scanned
  cases scanned

theorem cleared_filled (rest : Text) (scanned : scanU32 convert stdin = (none, unread)) (cleared : clearLine unread = some rest) :
    stdin.dropWhile isSpace ≠ [] := by
  intro blank
  rw [((scan_append convert stdin []).2 blank).2] at scanned
  cases scanned
  cases cleared

theorem valid_input_ensures (yields : Dialogue.Yields (getValidInput convert p question) stdin value unread) :
    question.isValid value = true := by
  generalize size : stdin.length = length
  induction length using Nat.strongRecOn generalizing stdin with
  | ind length ih =>
      obtain ⟨shown, answered⟩ := yields
      have turned := get_valid_input_turned convert p question stdin
      rw [answered] at turned
      generalize same : Asked.answered value unread shown = asked at turned
      cases turned with
      | taken other rest scanned valid =>
          cases same
          exact valid
      | refused other rest scanned invalid shorter =>
          obtain ⟨later, yields⟩ := Dialogue.behind_yields _ _ _ _ _ same.symm
          exact ih rest.length (size ▸ shorter) rest ⟨later, yields⟩ rfl
      | cleared junk rest scanned cleared shorter =>
          obtain ⟨later, yields⟩ := Dialogue.behind_yields _ _ _ _ _ same.symm
          exact ih rest.length (size ▸ shorter) rest ⟨later, yields⟩ rfl
      | starved junk scanned cleared => cases same

theorem valid_input_keeps (yields : Dialogue.Yields (getValidInput convert p question) stdin value unread) :
    Dialogue.Yields (getValidInput convert p question) (stdin ++ '\n' :: more) value (unread ++ '\n' :: more) := by
  generalize size : stdin.length = length
  induction length using Nat.strongRecOn generalizing stdin with
  | ind length ih =>
      obtain ⟨shown, answered⟩ := yields
      have appended := scan_append convert stdin more
      have turned := get_valid_input_turned convert p question stdin
      rw [answered] at turned
      generalize same : Asked.answered value unread shown = asked at turned
      cases turned with
      | taken other rest scanned valid =>
          cases same
          have scan := appended.1 (scanned_filled convert stdin unread value scanned)
          rw [scanned] at scan
          exact turn_taken convert p question _ _ value scan valid
      | refused other rest scanned invalid shorter =>
          obtain ⟨later, yields⟩ := Dialogue.behind_yields _ _ _ _ _ same.symm
          have scan := appended.1 (scanned_filled convert stdin rest other scanned)
          rw [scanned] at scan
          exact turn_refused convert p question _ _ other value _ scan invalid (ih rest.length (size ▸ shorter) rest ⟨later, yields⟩ rfl)
      | cleared junk rest scanned cleared shorter =>
          obtain ⟨later, yields⟩ := Dialogue.behind_yields _ _ _ _ _ same.symm
          have scan := appended.1 (cleared_filled convert stdin junk rest scanned cleared)
          rw [scanned] at scan
          have clears := clear_line_append junk more
          rw [cleared] at clears
          exact turn_cleared convert p question _ _ value _ _ scan clears (ih rest.length (size ▸ shorter) rest ⟨later, yields⟩ rfl)
      | starved junk scanned cleared => cases same

theorem valid_input_answerable (digits : Text) (filled : digits ≠ []) (decimal : ∀ c ∈ digits, isDigit 10 c = true)
    (accepted : question.isValid (convert false digits) = true) :
    Dialogue.Answerable '\n' (getValidInput convert p question) (fun value => question.isValid value = true) where
  ensures input value unread yields := valid_input_ensures convert p question input unread value yields
  keeps input value unread more yields := valid_input_keeps convert p question input unread more value yields
  resumes input stuck := by
    refine ⟨digits ++ ['\n'], convert false digits, ['\n'], ?_⟩
    have answers : Dialogue.Yields (getValidInput convert p question) (digits ++ ['\n']) (convert false digits) ['\n'] :=
      turn_taken convert p question _ _ _ (scan_number convert [] digits [] (fun c none => by cases none) filled decimal) accepted
    generalize size : input.length = length
    induction length using Nat.strongRecOn generalizing input with
    | ind length ih =>
        have appended := scan_append convert input (digits ++ ['\n'])
        have turned := get_valid_input_turned convert p question input
        generalize same : getValidInput convert p question input = asked at turned
        cases turned with
        | taken value unread scanned valid => exact absurd ⟨_, same⟩ (stuck value unread)
        | refused value unread scanned invalid shorter =>
            have scan := appended.1 (scanned_filled convert input unread value scanned)
            rw [scanned] at scan
            exact turn_refused convert p question _ _ value _ _ scan invalid (ih unread.length (size ▸ shorter) unread
              (fun result after yields => stuck result after (turn_refused convert p question _ _ value _ _ scanned invalid yields)) rfl)
        | cleared junk rest scanned cleared shorter =>
            have scan := appended.1 (cleared_filled convert input junk rest scanned cleared)
            rw [scanned] at scan
            have clears := clear_line_append junk (digits ++ ['\n'])
            rw [cleared] at clears
            exact turn_cleared convert p question _ _ _ _ _ scan clears (ih rest.length (size ▸ shorter) rest
              (fun result after yields => stuck result after (turn_cleared convert p question _ _ _ _ _ scanned cleared yields)) rfl)
        | starved junk scanned cleared =>
            by_cases blank : input.dropWhile isSpace = []
            · rw [Dialogue.Yields, get_valid_input_turn, askTurn, (appended.2 blank).1, ← askTurn, ← get_valid_input_turn]
              exact answers
            · have scan := appended.1 blank
              rw [scanned] at scan
              have clears := clear_line_append junk (digits ++ ['\n'])
              rw [cleared] at clears
              exact turn_cleared convert p question _ _ _ _ _ scan clears answers

end Asking

-- strtoul, which is documented for numbers that the type can hold.
structure Converts (convert : Bool → Text → Nat) : Prop where
  inRange : ∀ digits, numeralValue 10 digits < 2 ^ 32 → convert false digits = numeralValue 10 digits

-- The parameters while the questions are asked: the first assocs levels have
-- their associativity and the first sizes levels their size.
structure Answered (assocs sizes : Nat) (p : Parameters) : Prop where
  numLvls : isValidNumLvls p.numLvls = true
  lineSize : isValidLineSize p.lineSize = true
  assoc : ∀ lvl, lvl.val < assocs → p.present lvl → isValidAssoc (p.assoc lvl) = true
  lvlSize : ∀ lvl, lvl.val < sizes → p.present lvl → isValidLvlSize p (p.lvlSize lvl) lvl = true

theorem answered_accepted (p : Parameters) (answered : Answered 3 3 p) : Accepted p :=
  ⟨answered.numLvls, answered.lineSize, fun lvl => answered.assoc lvl lvl.isLt, fun lvl => answered.lvlSize lvl lvl.isLt⟩

theorem first_present (p : Parameters) (valid : isValidNumLvls p.numLvls = true) : p.present 0 := by
  rw [isValidNumLvls, Bool.and_eq_true, decide_eq_true_eq] at valid
  exact valid.1

section Stages

variable (convert : Bool → Text → Nat) (converts : Converts convert) (p : Parameters) (lvl : Fin 3)

include converts

theorem question_answerable (question : Question) (digits : Text) (filled : digits ≠ []) (decimal : ∀ c ∈ digits, isDigit 10 c = true)
    (small : numeralValue 10 digits < 2 ^ 32) (valid : question.isValid (numeralValue 10 digits) = true) :
    Dialogue.Answerable '\n' (getValidInput convert p question) (fun value => question.isValid value = true) :=
  valid_input_answerable convert p question digits filled decimal (by rw [converts.inRange digits small]; exact valid)

theorem assoc_answerable (answered : Answered lvl.val 0 p) :
    Dialogue.Answerable '\n' (askAssoc convert lvl p) (Answered (lvl.val + 1) 0) := by
  refine Dialogue.answerable_bind _ _ _ _ _ (question_answerable convert converts p (assocQuestion lvl) ['1'] (by decide)
    (List.all_eq_true.mp rfl) (by decide) rfl) fun assoc valid => Dialogue.answerable_done _ _ _ ?_
  refine ⟨answered.numLvls, answered.lineSize, fun other below present => ?_, fun other below => absurd below (Nat.not_lt_zero _)⟩
  dsimp only
  by_cases same : other = lvl
  · rw [same, Function.update_self]
    exact valid
  · rw [Function.update_of_ne same]
    exact answered.assoc other (by omega) present

omit converts in
theorem largest_size_valid (answered : Answered 3 lvl.val p) (present : p.present lvl) : isValidLvlSize p (lvlMaxSize lvl) lvl = true := by
  have line := answered.lineSize
  have ways := answered.assoc lvl lvl.isLt present
  simp only [isValidLineSize, isValidAssoc, Bool.or_eq_true, Bool.and_eq_true, beq_iff_eq, decide_eq_true_eq] at line ways
  have least : ∀ any, 2048 ≤ lvlMaxSize any ∧ isPowerOfTwo (lvlMaxSize any) = true := by decide
  have fits : p.assoc lvl * p.lineSize ≤ 8 * 64 := Nat.mul_le_mul ways.2 (by omega)
  rw [isValidLvlSize, (least lvl).2, Bool.true_and, Bool.and_eq_true, decide_eq_true_eq, decide_eq_true_eq]
  exact ⟨by have := (least lvl).1; omega, Nat.le_refl _⟩

def largestDigits (lvl : Fin 3) : Text :=
  match lvl with
  | 0 => ['2', '0', '4', '8']
  | 1 => ['4', '0', '9', '6']
  | 2 => ['8', '1', '9', '2']

theorem lvl_size_answerable (answered : Answered 3 lvl.val p) (present : p.present lvl) :
    Dialogue.Answerable '\n' (askLvlSize convert lvl p) (Answered 3 (lvl.val + 1)) := by
  have digits : ∀ any, largestDigits any ≠ [] ∧ (largestDigits any).all (isDigit 10) = true ∧
      numeralValue 10 (largestDigits any) = lvlMaxSize any ∧ lvlMaxSize any < 2 ^ 32 := by decide
  obtain ⟨filled, decimal, value, small⟩ := digits lvl
  have largest := largest_size_valid p lvl answered present
  refine Dialogue.answerable_bind _ _ _ _ _ (question_answerable convert converts p (lvlSizeQuestion p lvl) (largestDigits lvl) filled
    (List.all_eq_true.mp decimal) (value ▸ small) (value ▸ largest)) fun size valid => Dialogue.answerable_done _ _ _ ?_
  refine ⟨answered.numLvls, answered.lineSize, answered.assoc, fun other below there => ?_⟩
  dsimp only
  by_cases same : other = lvl
  · rw [same, Function.update_self]
    exact valid
  · rw [Function.update_of_ne same]
    exact answered.lvlSize other (by omega) there

omit converts in
theorem if_present_answerable (ask : Parameters → Dialogue Char String Parameters) (after : Parameters → Prop)
    (asked : p.present lvl → Dialogue.Answerable '\n' (ask p) after) (skipped : ¬ p.present lvl → after p) :
    Dialogue.Answerable '\n' (ifPresent lvl ask p) after := by
  rw [ifPresent]
  split
  · rename_i present
    exact asked present
  · rename_i absent
    exact Dialogue.answerable_done _ _ _ (skipped absent)

theorem assoc_if_present (answered : Answered lvl.val 0 p) :
    Dialogue.Answerable '\n' (ifPresent lvl (askAssoc convert lvl) p) (Answered (lvl.val + 1) 0) := by
  refine if_present_answerable p lvl _ _ (fun _ => assoc_answerable convert converts p lvl answered) fun absent => ?_
  refine ⟨answered.numLvls, answered.lineSize, fun other below there => ?_, fun other below => absurd below (Nat.not_lt_zero _)⟩
  by_cases same : other = lvl
  · exact absurd (same ▸ there) absent
  · exact answered.assoc other (by omega) there

theorem lvl_size_if_present (answered : Answered 3 lvl.val p) :
    Dialogue.Answerable '\n' (ifPresent lvl (askLvlSize convert lvl) p) (Answered 3 (lvl.val + 1)) := by
  refine if_present_answerable p lvl _ _ (lvl_size_answerable convert converts p lvl answered) fun absent => ?_
  refine ⟨answered.numLvls, answered.lineSize, answered.assoc, fun other below there => ?_⟩
  by_cases same : other = lvl
  · exact absurd (same ▸ there) absent
  · exact answered.lvlSize other (by omega) there

end Stages

theorem configuration_answerable (convert : Bool → Text → Nat) (converts : Converts convert) (start : Parameters) :
    Dialogue.Answerable '\n' (configureCacheSimParameters convert start) Accepted := by
  refine Dialogue.answerable_bind _ _ _ _ _ (Dialogue.answerable_tell _ _) fun _ _ => ?_
  refine Dialogue.answerable_bind _ _ _ _ _ (question_answerable convert converts _ numLvlsQuestion ['1'] (by decide)
    (List.all_eq_true.mp rfl) (by decide) rfl) fun numLvls levels => ?_
  refine Dialogue.answerable_bind _ _ _ _ _ (question_answerable convert converts _ lineSizeQuestion ['1', '6'] (by decide)
    (List.all_eq_true.mp rfl) (by decide) rfl) fun lineSize size => ?_
  have asked : Answered 0 0 { start with numLvls := numLvls, lineSize := lineSize } :=
    ⟨levels, size, fun _ below => absurd below (Nat.not_lt_zero _), fun _ below => absurd below (Nat.not_lt_zero _)⟩
  refine Dialogue.answerable_bind _ _ _ _ _ (assoc_answerable convert converts _ 0 asked) fun p one => ?_
  refine Dialogue.answerable_bind _ _ _ _ _ (assoc_if_present convert converts p 1 one) fun p two => ?_
  refine Dialogue.answerable_bind _ _ _ _ _ (assoc_if_present convert converts p 2 two) fun p three => ?_
  refine Dialogue.answerable_bind _ _ _ _ _ (lvl_size_answerable convert converts p 0
    ⟨three.numLvls, three.lineSize, three.assoc, fun _ below => absurd below (Nat.not_lt_zero _)⟩
    (first_present p three.numLvls)) fun p one => ?_
  refine Dialogue.answerable_bind _ _ _ _ _ (lvl_size_if_present convert converts p 1 one) fun p two => ?_
  refine Dialogue.answerable_bind _ _ _ _ _ (lvl_size_if_present convert converts p 2 two) fun p three => ?_
  refine Dialogue.answerable_bind _ _ _ _ _ (question_answerable convert converts p algorithmQuestion ['1'] (by decide)
    (List.all_eq_true.mp rfl) (by decide) rfl) fun algorithmNum _ => Dialogue.answerable_done _ _ _ ?_
  exact answered_accepted _ ⟨three.numLvls, three.lineSize, three.assoc, three.lvlSize⟩

def storedU32 (negative : Bool) (digits : Text) : Nat :=
  let value := min (numeralValue 10 digits) (2 ^ 64 - 1)
  (if negative ∧ numeralValue 10 digits < 2 ^ 64 then 2 ^ 64 - value else value) % 2 ^ 32

theorem stored_converts : Converts storedU32 := ⟨fun digits small => by
  have fits : min (numeralValue 10 digits) (2 ^ 64 - 1) = numeralValue 10 digits := Nat.min_eq_left (by omega)
  simp only [storedU32, Bool.false_eq_true, false_and, if_false, fits]
  exact Nat.mod_eq_of_lt small⟩

end CpuEmulator.Cache
