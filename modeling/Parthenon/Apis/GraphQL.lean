import Parthenon.Monetary.Denominations

namespace Parthenon.Apis

open Library Storage Common Monetary

/-! # The document parser

The first field that a document asks for.  Comments are taken out first; an operation may have
a keyword, a name and variables in balanced parentheses before its selection.
-/

def isAlpha (byte : UInt8) : Bool := (65 ≤ byte && byte ≤ 90) || (97 ≤ byte && byte ≤ 122)

def isAlnum (byte : UInt8) : Bool := isAlpha byte || isDigit byte

def isWord (byte : UInt8) : Bool := isAlnum byte || byte == 95

/-- The loop that leaves out comments, told whether it is in one. -/
def stripComments : Bool → Bytes → Bytes
  | _, [] => []
  | inComment, character :: rest =>
      let inComment := if character = 35 then true else inComment
      let inComment := if character = 10 then false else inComment
      if inComment then stripComments inComment rest
      else character :: stripComments inComment rest

def skipWs (text : Bytes) : Bytes := text.dropWhile isSpace

/-- The text behind the parenthesis that closes the last one open, or none of it. -/
def skipParens : Nat → Bytes → Bytes
  | 0, text => text
  | _ + 1, [] => []
  | depth + 1, character :: rest =>
      if character = 40 then skipParens (depth + 2) rest
      else if character = 41 then skipParens depth rest
      else skipParens (depth + 1) rest

def keywords : List Bytes :=
  [text "query".toList, text "mutation".toList, text "subscription".toList]

def skipName (s : Bytes) : Bytes :=
  match s with
  | [] => []
  | first :: _ => if isAlpha first then s.dropWhile isWord else s

def skipVariables (s : Bytes) : Bytes :=
  match s with
  | [] => []
  | first :: rest => if first = 40 then skipParens 1 rest else s

/-- A word that is no keyword is left where it is. -/
def skipOperation (s : Bytes) : Bytes :=
  match s with
  | [] => []
  | first :: _ =>
      if isAlpha first then
        if keywords.contains (lower (s.takeWhile isWord)) then
          skipVariables (skipWs (skipName (skipWs (s.dropWhile isWord))))
        else s
      else s

def firstField (s : Bytes) : Bytes :=
  match s with
  | [] => []
  | first :: _ => if isAlpha first then lower (s.takeWhile isWord) else []

def extractRootField (doc : Bytes) : Bytes :=
  match skipWs (skipOperation (skipWs (stripComments false doc))) with
  | [] => []
  | brace :: rest => if brace = 123 then firstField (skipWs rest) else []

/-! ## The documents -/

/-- Every line without its comment. -/
def uncommented (doc : Bytes) : Bytes :=
  [10].intercalate ((doc.splitOn 10).map fun line => line.takeWhile (· ≠ 35))

def Blank (gap : Bytes) : Prop := ∀ byte ∈ gap, isSpace byte = true

def IsName (name : Bytes) : Prop :=
  ∃ first rest, name = first :: rest ∧ isAlpha first = true ∧ ∀ byte ∈ rest, isWord byte = true

/-- Parentheses with what they enclose, and other characters between them. -/
inductive Balanced : Bytes → Prop
  | nil : Balanced []
  | other {byte : UInt8} {rest : Bytes} (opens : byte ≠ 40) (closes : byte ≠ 41)
      (balanced : Balanced rest) : Balanced (byte :: rest)
  | enclosed {inner rest : Bytes} (balanced : Balanced inner) (balancedRest : Balanced rest) :
      Balanced (40 :: (inner ++ 41 :: rest))

/-- What stands before a selection. -/
inductive Operation : Bytes → Prop
  | shorthand {gap : Bytes} (blank : Blank gap) : Operation gap
  | keyword {before word gap name gapAfter parameters last : Bytes} (blankBefore : Blank before)
      (isKeyword : lower word ∈ keywords) (blank : Blank gap)
      (isName : name = [] ∨ gap ≠ [] ∧ IsName name) (blankAfter : Blank gapAfter)
      (areParameters : parameters = [] ∨
        ∃ inner, Balanced inner ∧ parameters = 40 :: (inner ++ [41])) (blankLast : Blank last) :
      Operation (before ++ word ++ gap ++ name ++ gapAfter ++ parameters ++ last)

/-- A document whose selection begins with a field. -/
def AsksFor (doc field : Bytes) : Prop :=
  ∃ operation gap name rest, uncommented doc = operation ++ 123 :: (gap ++ name ++ rest) ∧
    Operation operation ∧ Blank gap ∧ IsName name ∧ (∀ byte ∈ rest.head?, isWord byte = false) ∧
    field = lower name

/-! ## Characters -/

theorem isAlpha_iff {byte : UInt8} : isAlpha byte = true ↔
    (65 ≤ byte.toNat ∧ byte.toNat ≤ 90) ∨ (97 ≤ byte.toNat ∧ byte.toNat ≤ 122) := by
  simp [isAlpha, UInt8.le_iff_toNat_le]

theorem isWord_of_isAlpha {byte : UInt8} (alpha : isAlpha byte = true) : isWord byte = true := by
  rw [isWord, isAlnum, alpha]
  rfl

theorem not_isSpace_of_isWord {byte : UInt8} (word : isWord byte = true) : isSpace byte = false := by
  simp only [isWord, isAlnum, isDigit, Bool.or_eq_true, isAlpha_iff, Bool.and_eq_true,
    decide_eq_true_eq, beq_iff_eq, ← UInt8.toNat_inj, UInt8.le_iff_toNat_le, UInt8.reduceToNat] at word
  simp only [isSpace, Bool.or_eq_false_iff, beq_eq_false_iff_ne, ne_eq, Bool.and_eq_false_iff,
    decide_eq_false_iff_not, UInt8.le_iff_toNat_le, ← UInt8.toNat_inj, UInt8.reduceToNat]
  omega

theorem not_isWord_of_isSpace {byte : UInt8} (space : isSpace byte = true) : isWord byte = false := by
  cases word : isWord byte with
  | false => rfl
  | true =>
      rw [not_isSpace_of_isWord word] at space
      cases space

theorem isAlpha_ne {byte : UInt8} (alpha : isAlpha byte = true) : byte ≠ 123 ∧ byte ≠ 40 := by
  rw [isAlpha_iff] at alpha
  simp only [ne_eq, ← UInt8.toNat_inj, UInt8.reduceToNat]
  omega

/-! ## Comments -/

theorem stripComments_lines (doc : Bytes) : ∃ first others, doc.splitOn 10 = first :: others ∧
    stripComments false doc = [10].intercalate
      (first.takeWhile (· ≠ 35) :: others.map fun line => line.takeWhile (· ≠ 35)) ∧
    stripComments true doc =
      [10].intercalate ([] :: others.map fun line => line.takeWhile (· ≠ 35)) := by
  induction doc with
  | nil => exact ⟨[], [], rfl, rfl, rfl⟩
  | cons character rest ih =>
      obtain ⟨first, others, lines, outside, inside⟩ := ih
      rw [List.splitOn_cons_eq_if_modifyHead, lines]
      by_cases newline : character = 10
      · subst newline
        refine ⟨[], first :: others, rfl, ?_, ?_⟩
        · rw [stripComments, if_neg (by decide)]
          rw [if_pos rfl, outside, List.map_cons,
            List.intercalate_cons_cons]
          rfl
        · rw [stripComments, if_neg (by decide)]
          rw [if_pos rfl, outside, List.map_cons,
            List.intercalate_cons_cons]
          rfl
      · have split : (if (character == 10) = true then [] :: first :: others
            else (first :: others).modifyHead (List.cons character)) =
            (character :: first) :: others := by
          rw [if_neg (by simpa using newline)]
          rfl
        rw [split]
        refine ⟨character :: first, others, rfl, ?_, ?_⟩
        · rw [stripComments]
          by_cases comment : character = 35
          · subst comment
            rw [if_pos rfl, if_neg newline, if_pos rfl, inside]
            rfl
          · rw [if_neg comment, if_neg newline, if_neg Bool.false_ne_true, outside,
              List.takeWhile_cons_of_pos (by simpa using comment),
              List.intercalate_cons_cons_left]
        · rw [stripComments]
          rw [ite_self, if_neg newline, if_pos rfl, inside]

theorem stripComments_eq (doc : Bytes) : stripComments false doc = uncommented doc := by
  obtain ⟨first, others, lines, outside, _⟩ := stripComments_lines doc
  rw [outside, uncommented, lines, List.map_cons]

/-! ## Parentheses -/

theorem skipParens_balanced {inner : Bytes} (balanced : Balanced inner) (depth : Nat) (rest : Bytes) :
    skipParens (depth + 1) (inner ++ rest) = skipParens (depth + 1) rest := by
  induction balanced generalizing depth rest with
  | nil => rfl
  | other opens closes _ ih =>
      rw [List.cons_append, skipParens, if_neg opens, if_neg closes, ih]
  | @enclosed inner others _ _ ih ihRest =>
      have shape : 40 :: (inner ++ 41 :: others) ++ rest = 40 :: (inner ++ (41 :: (others ++ rest))) := by
        simp
      rw [shape, skipParens, if_pos rfl, ih (depth + 1), skipParens, if_neg (by decide), if_pos rfl,
        ihRest]

/-- Either a parenthesis is closed behind a balanced text, or nothing remains. -/
theorem skipParens_cases (depth : Nat) (s : Bytes) :
    (∃ inner rest, Balanced inner ∧ s = inner ++ 41 :: rest ∧
      skipParens (depth + 1) s = skipParens depth rest) ∨ skipParens (depth + 1) s = [] := by
  induction s using (measure List.length).wf.induction generalizing depth with
  | _ s ih =>
      cases s with
      | nil => exact .inr rfl
      | cons character rest =>
          have shorter (later : Bytes) (short : later.length ≤ rest.length) (depth : Nat) :=
            ih later (show later.length < (character :: rest).length by
              rw [List.length_cons]
              omega) depth
          rw [skipParens]
          by_cases opens : character = 40
          · subst opens
            rw [if_pos rfl]
            rcases shorter rest (Nat.le_refl _) (depth + 1) with ⟨inner, after, balanced, rfl, reached⟩ | none
            · rw [reached]
              rcases shorter after (by simp; omega) depth with ⟨others, last, balancedToo, rfl, reached⟩ | none
              · refine .inl ⟨40 :: (inner ++ 41 :: others), last, .enclosed balanced balancedToo, ?_, reached⟩
                simp
              · exact .inr none
            · exact .inr none
          · rw [if_neg opens]
            by_cases closes : character = 41
            · subst closes
              rw [if_pos rfl]
              exact .inl ⟨[], rest, .nil, rfl, rfl⟩
            · rw [if_neg closes]
              rcases shorter rest (Nat.le_refl _) depth with ⟨inner, after, balanced, rfl, reached⟩ | none
              · exact .inl ⟨character :: inner, after, .other opens closes balanced, rfl, reached⟩
              · exact .inr none

/-! ## The parser reads the documents -/

theorem skipWs_blank {gap : Bytes} (blank : Blank gap) (rest : Bytes) :
    skipWs (gap ++ rest) = skipWs rest := List.dropWhile_append_of_pos blank

theorem skipWs_cons {first : UInt8} (visible : isSpace first = false) (rest : Bytes) :
    skipWs (first :: rest) = first :: rest :=
  List.dropWhile_cons_of_neg (Bool.eq_false_iff.mp visible)

/-- What is skipped is blank. -/
theorem exists_blank (s : Bytes) : ∃ gap, Blank gap ∧ s = gap ++ skipWs s :=
  ⟨s.takeWhile isSpace, fun _ => List.mem_takeWhile_imp, List.takeWhile_append_dropWhile.symm⟩

theorem takeWhile_name {name rest : Bytes} (word : ∀ byte ∈ name, isWord byte = true)
    (ends : ∀ byte ∈ rest.head?, isWord byte = false) :
    (name ++ rest).takeWhile isWord = name ∧ (name ++ rest).dropWhile isWord = rest := by
  rw [List.takeWhile_append_of_pos word, List.dropWhile_append_of_pos word]
  cases rest with
  | nil => exact ⟨List.append_nil _, rfl⟩
  | cons first rest =>
      have stops := Bool.eq_false_iff.mp (ends first rfl)
      rw [List.takeWhile_cons_of_neg stops, List.dropWhile_cons_of_neg stops, List.append_nil]
      exact ⟨rfl, rfl⟩

theorem IsName.word {name : Bytes} (isName : IsName name) : ∀ byte ∈ name, isWord byte = true := by
  obtain ⟨first, rest, rfl, alpha, word⟩ := isName
  exact List.forall_mem_cons.mpr ⟨isWord_of_isAlpha alpha, word⟩

/-- A text that begins with a letter begins with a name. -/
theorem exists_name {first : UInt8} {s : Bytes} (alpha : isAlpha first = true) :
    ∃ name rest, first :: s = name ++ rest ∧ IsName name ∧ (∀ byte ∈ rest.head?, isWord byte = false) ∧
      (first :: s).takeWhile isWord = name ∧ (first :: s).dropWhile isWord = rest := by
  refine ⟨(first :: s).takeWhile isWord, (first :: s).dropWhile isWord,
    List.takeWhile_append_dropWhile.symm, ?_, ?_, rfl, rfl⟩
  · rw [List.takeWhile_cons_of_pos (isWord_of_isAlpha alpha)]
    exact ⟨first, _, rfl, alpha, fun byte => List.mem_takeWhile_imp⟩
  · intro byte isHead
    have stops := List.head?_dropWhile_not isWord (first :: s)
    rw [Option.mem_def.mp isHead] at stops
    exact stops

/-- A keyword is a name. -/
theorem isName_of_keyword {word : Bytes} (isKeyword : lower word ∈ keywords) : IsName word := by
  have letters : ∀ keyword ∈ keywords, keyword ≠ [] ∧ ∀ byte ∈ keyword, isAlpha byte = true := by
    decide +kernel
  obtain ⟨nonempty, lowered⟩ := letters _ isKeyword
  have alpha : ∀ byte ∈ word, isAlpha byte = true := by
    intro byte member
    have lowerAlpha := lowered _ (List.mem_map_of_mem member)
    rcases toLower_cases byte with ⟨least, most, _⟩ | ⟨_, same⟩
    · exact isAlpha_iff.mpr (.inl ⟨least, most⟩)
    · rwa [same] at lowerAlpha
  cases word with
  | nil => cases nonempty rfl
  | cons first rest =>
      exact ⟨first, rest, rfl, alpha first List.mem_cons_self, fun byte member =>
        isWord_of_isAlpha (alpha byte (List.mem_cons_of_mem _ member))⟩

theorem firstField_name {gap name rest : Bytes} (blank : Blank gap) (isName : IsName name)
    (ends : ∀ byte ∈ rest.head?, isWord byte = false) :
    firstField (skipWs (gap ++ name ++ rest)) = lower name := by
  have word := isName.word
  obtain ⟨first, others, rfl, alpha, _⟩ := isName
  rw [List.append_assoc, skipWs_blank blank, List.cons_append,
    skipWs_cons (not_isSpace_of_isWord (isWord_of_isAlpha alpha)), firstField]
  rw [if_pos alpha, ← List.cons_append, (takeWhile_name word ends).1]

theorem firstField_ne_nil {s : Bytes} (found : firstField s ≠ []) :
    ∃ name rest, s = name ++ rest ∧ IsName name ∧ (∀ byte ∈ rest.head?, isWord byte = false) ∧
      firstField s = lower name := by
  cases s with
  | nil => cases found rfl
  | cons first s =>
      rw [firstField] at found ⊢
      split at found
      · rename_i alpha
        obtain ⟨name, rest, split, isName, ends, taken, _⟩ := exists_name (s := s) alpha
        rw [if_pos alpha, taken]
        exact ⟨name, rest, split, isName, ends, rfl⟩
      · cases found rfl

/-- Behind blanks, and before a text that begins with no word, no word goes on. -/
theorem ends_blank {gap rest : Bytes} (blank : Blank gap)
    (opens : ∀ byte ∈ (skipWs rest).head?, isWord byte = false) :
    ∀ byte ∈ (gap ++ rest).head?, isWord byte = false := by
  intro byte isHead
  cases gap with
  | cons first gap =>
      rw [List.cons_append, List.head?_cons, Option.mem_some_iff] at isHead
      subst isHead
      exact not_isWord_of_isSpace (blank first List.mem_cons_self)
  | nil =>
      cases rest with
      | nil => cases isHead
      | cons first rest =>
          rw [List.nil_append, List.head?_cons, Option.mem_some_iff] at isHead
          subst isHead
          cases space : isSpace first with
          | true => exact not_isWord_of_isSpace space
          | false =>
              rw [skipWs_cons space] at opens
              exact opens first rfl

theorem skipWs_skipWs (s : Bytes) : skipWs (skipWs s) = skipWs s := List.dropWhile_idempotent _ _

/-- A name is skipped with the blanks around it. -/
theorem skipName_gap {gap name gapAfter rest : Bytes} (blank : Blank gap)
    (isName : name = [] ∨ IsName name) (blankAfter : Blank gapAfter)
    (opens : ∀ byte ∈ (skipWs rest).head?, isWord byte = false) :
    skipWs (skipName (skipWs (gap ++ name ++ gapAfter ++ rest))) = skipWs rest := by
  rw [List.append_assoc, List.append_assoc, skipWs_blank blank]
  rcases isName with rfl | isName
  · rw [List.nil_append, skipWs_blank blankAfter]
    have again := skipWs_skipWs rest
    cases skipped : skipWs rest with
    | nil => rfl
    | cons first others =>
        rw [skipped] at opens again
        have noLetter : ¬ isAlpha first = true := by
          intro alpha
          have stops := opens first rfl
          rw [isWord_of_isAlpha alpha] at stops
          cases stops
        rw [skipName, if_neg noLetter, again]
  · have word := isName.word
    obtain ⟨first, others, rfl, alpha, _⟩ := isName
    rw [List.cons_append, skipWs_cons (not_isSpace_of_isWord (isWord_of_isAlpha alpha)), skipName,
      if_pos alpha, ← List.cons_append, (takeWhile_name word (ends_blank blankAfter opens)).2,
      skipWs_blank blankAfter]

/-- Parameters are skipped up to the brace. -/
theorem skipVariables_brace {parameters last rest : Bytes}
    (areParameters : parameters = [] ∨ ∃ inner, Balanced inner ∧ parameters = 40 :: (inner ++ [41]))
    (blank : Blank last) :
    skipWs (skipVariables (skipWs (parameters ++ last ++ 123 :: rest))) = 123 :: rest := by
  have brace : skipWs (last ++ 123 :: rest) = 123 :: rest := by
    rw [skipWs_blank blank]
    exact skipWs_cons (by decide) rest
  rw [List.append_assoc]
  rcases areParameters with rfl | ⟨inner, balanced, rfl⟩
  · rw [List.nil_append, brace, skipVariables, if_neg (by decide)]
    exact skipWs_cons (by decide) rest
  · rw [List.cons_append, skipWs_cons (by decide), skipVariables, if_pos rfl, List.append_assoc,
      skipParens_balanced balanced, List.singleton_append, skipParens, if_neg (by decide), if_pos rfl,
      skipParens, brace]

/-- What stands before the brace is skipped. -/
theorem skipOperation_brace {operation rest : Bytes} (isOperation : Operation operation) :
    skipWs (skipOperation (skipWs (operation ++ 123 :: rest))) = 123 :: rest := by
  have brace : skipWs (123 :: rest) = 123 :: rest := skipWs_cons (by decide) rest
  cases isOperation with
  | shorthand blank =>
      rw [skipWs_blank blank, brace, skipOperation, if_neg (by decide), brace]
  | @keyword before word gap name gapAfter parameters last blankBefore isKeyword blank isName
      blankAfter areParameters blankLast =>
      have isNameWord := isName_of_keyword isKeyword
      have opens : ∀ byte ∈ (skipWs (parameters ++ last ++ 123 :: rest)).head?, isWord byte = false := by
        intro byte isHead
        rcases areParameters with rfl | ⟨inner, _, rfl⟩
        · rw [List.nil_append, skipWs_blank blankLast, brace, List.head?_cons,
            Option.mem_some_iff] at isHead
          subst isHead
          decide
        · rw [List.append_assoc, List.cons_append, skipWs_cons (by decide), List.head?_cons,
            Option.mem_some_iff] at isHead
          subst isHead
          decide
      have ends : ∀ byte ∈ (gap ++ name ++ gapAfter ++ (parameters ++ last ++ 123 :: rest)).head?,
          isWord byte = false := by
        rcases isName with rfl | ⟨nonempty, _⟩
        · have blanks : Blank (gap ++ [] ++ gapAfter) := by
            rw [List.append_nil]
            exact List.forall_mem_append.mpr ⟨blank, blankAfter⟩
          exact ends_blank blanks opens
        · obtain ⟨first, others, rfl⟩ := List.exists_cons_of_ne_nil nonempty
          intro byte isHead
          rw [List.cons_append, List.cons_append, List.cons_append, List.head?_cons,
            Option.mem_some_iff] at isHead
          subst isHead
          exact not_isWord_of_isSpace (blank first List.mem_cons_self)
      have shape : before ++ word ++ gap ++ name ++ gapAfter ++ parameters ++ last ++ 123 :: rest =
          before ++ (word ++ (gap ++ name ++ gapAfter ++ (parameters ++ last ++ 123 :: rest))) := by
        simp only [List.append_assoc]
      have taken := takeWhile_name isNameWord.word ends
      obtain ⟨first, others, rfl, alpha, _⟩ := isNameWord
      rw [shape, skipWs_blank blankBefore, List.cons_append,
        skipWs_cons (not_isSpace_of_isWord (isWord_of_isAlpha alpha)), skipOperation, if_pos alpha,
        ← List.cons_append, taken.1, if_pos (List.contains_iff_mem.mpr isKeyword), taken.2,
        skipName_gap blank (isName.imp_right And.right) blankAfter opens]
      exact skipVariables_brace areParameters blankLast

/-- What a name is skipped from. -/
theorem exists_skipName (s : Bytes) : ∃ name, (name = [] ∨ IsName name) ∧ s = name ++ skipName s := by
  cases s with
  | nil => exact ⟨[], .inl rfl, rfl⟩
  | cons first s =>
      rw [skipName]
      split
      · rename_i alpha
        obtain ⟨name, rest, split, isName, _, _, dropped⟩ := exists_name (s := s) alpha
        rw [dropped]
        exact ⟨name, .inr isName, split⟩
      · exact ⟨[], .inl rfl, rfl⟩

theorem exists_skipVariables {s : Bytes} (remains : skipVariables s ≠ []) :
    ∃ parameters, (parameters = [] ∨ ∃ inner, Balanced inner ∧ parameters = 40 :: (inner ++ [41])) ∧
      s = parameters ++ skipVariables s := by
  cases s with
  | nil => exact ⟨[], .inl rfl, rfl⟩
  | cons first s =>
      rw [skipVariables] at remains ⊢
      split at remains
      · rename_i opens
        subst opens
        rw [if_pos rfl]
        rcases skipParens_cases 0 s with ⟨inner, rest, balanced, rfl, reached⟩ | none
        · rw [reached, skipParens]
          exact ⟨40 :: (inner ++ [41]), .inr ⟨inner, balanced, rfl⟩, by simp⟩
        · exact absurd none remains
      · rename_i other
        rw [if_neg other]
        exact ⟨[], .inl rfl, rfl⟩

/-- What is skipped is an operation, if a brace follows. -/
theorem exists_operation {s rest : Bytes} (skipped : skipWs (skipOperation (skipWs s)) = 123 :: rest) :
    ∃ operation, Operation operation ∧ s = operation ++ 123 :: rest := by
  obtain ⟨before, blankBefore, isBefore⟩ := exists_blank s
  have again := skipWs_skipWs s
  have shorthand (same : skipWs s = 123 :: rest) :
      ∃ operation, Operation operation ∧ s = operation ++ 123 :: rest :=
    ⟨before, .shorthand blankBefore, by rw [← same, ← isBefore]⟩
  cases begins : skipWs s with
  | nil =>
      rw [begins] at skipped
      cases skipped
  | cons first others =>
      rw [begins] at skipped again
      rw [skipOperation] at skipped
      split at skipped
      · rename_i alpha
        split at skipped
        · rename_i isKeyword
          obtain ⟨word, behind, split, isWord_, ends, taken, dropped⟩ := exists_name (s := others) alpha
          rw [taken] at isKeyword
          rw [dropped] at skipped
          obtain ⟨gap, blank, isGap⟩ := exists_blank behind
          obtain ⟨name, isName, isNamed⟩ := exists_skipName (skipWs behind)
          obtain ⟨gapAfter, blankAfter, isGapAfter⟩ := exists_blank (skipName (skipWs behind))
          have remains : skipVariables (skipWs (skipName (skipWs behind))) ≠ [] := by
            intro none
            rw [none] at skipped
            cases skipped
          obtain ⟨parameters, areParameters, isVariables⟩ := exists_skipVariables remains
          obtain ⟨last, blankLast, isLast⟩ :=
            exists_blank (skipVariables (skipWs (skipName (skipWs behind))))
          rw [skipped] at isLast
          refine ⟨before ++ word ++ gap ++ name ++ gapAfter ++ parameters ++ last,
            .keyword blankBefore (List.contains_iff_mem.mp isKeyword) blank ?_ blankAfter
              areParameters blankLast, ?_⟩
          · refine isName.imp_right fun isName => ⟨?_, isName⟩
            -- a name that follows at once would belong to the keyword
            rintro rfl
            rw [List.nil_append] at isGap
            obtain ⟨letter, _, rfl, alphaLetter, _⟩ := isName
            rw [isGap, isNamed] at ends
            have stops := ends letter rfl
            rw [isWord_of_isAlpha alphaLetter] at stops
            cases stops
          · simp only [List.append_assoc]
            rw [← isLast, ← isVariables, ← isGapAfter, ← isNamed, ← isGap, ← split, ← begins,
              ← isBefore]
        · rw [again] at skipped
          exact shorthand (begins.trans skipped)
      · rw [again] at skipped
        exact shorthand (begins.trans skipped)

/-- The parser finds a field exactly in the documents that ask for it. -/
theorem extractRootField_iff (doc field : Bytes) :
    extractRootField doc = field ∧ field ≠ [] ↔ AsksFor doc field := by
  rw [extractRootField, stripComments_eq]
  constructor
  · rintro ⟨rfl, found⟩
    split at found
    · cases found rfl
    · rename_i brace rest skipped
      split at found
      · rename_i isBrace
        subst isBrace
        obtain ⟨operation, isOperation, split⟩ := exists_operation skipped
        obtain ⟨gap, blank, isGap⟩ := exists_blank rest
        obtain ⟨name, last, isRest, isName, ends, isField⟩ := firstField_ne_nil found
        rw [if_pos rfl]
        refine ⟨operation, gap, name, last, ?_, isOperation, blank, isName, ends, isField⟩
        rw [split, List.append_assoc, ← isRest, ← isGap]
      · cases found rfl
  · rintro ⟨operation, gap, name, rest, split, isOperation, blank, isName, ends, rfl⟩
    rw [split, skipOperation_brace isOperation]
    dsimp only
    rw [if_pos rfl, firstField_name blank isName ends]
    obtain ⟨first, others, rfl, _⟩ := isName
    exact ⟨rfl, List.cons_ne_nil _ _⟩

end Parthenon.Apis
