import CppTree.Proofs.Grammar.Derivation
import CppTree.Proofs.Operators

/-!
# Reading derivations

A predictive reader of the grammar: it looks at the next token or two, never goes back, and turns
what is recursive on the left into loops, `extend` behind an operand and `climb` behind a binary
operation.  `Token.strength` says which tokens end these loops.  The reader terminates since no part
of it leaves more tokens than it was given, which `within` makes sure of.
-/

namespace CppTree

/-- The tokens behind one that has to come first. -/
def expect (token : Token) (ts : List Token) :
    Option { rest : List Token // rest.length < ts.length } :=
  match ts with
  | first :: rest => if first = token then some ⟨rest, Nat.lt_succ_self _⟩ else none
  | [] => none

/-- What was read of some tokens, if no more are left than there were. -/
def within {α : Type} (ts : List Token) :
    Option (α × List Token) → Option (α × { rest : List Token // rest.length ≤ ts.length })
  | some (result, rest) =>
    if h : rest.length ≤ ts.length then some (result, ⟨rest, h⟩) else none
  | none => none

@[simp]
theorem expect_cons (token : Token) (rest : List Token) :
    expect token (token :: rest) = some ⟨rest, Nat.lt_succ_self _⟩ :=
  if_pos rfl

theorem within_of_le {α : Type} {ts rest : List Token} (h : rest.length ≤ ts.length) (result : α) :
    within ts (some (result, rest)) = some (result, ⟨rest, h⟩) :=
  dif_pos h

@[simp]
theorem within_append {α : Type} (ts rest : List Token) (result : α) :
    within (ts ++ rest) (some (result, rest)) =
      some (result, ⟨rest, (List.suffix_append ts rest).length_le⟩) :=
  within_of_le _ result

variable (dialect : Dialect)

-- Where one function hands all of its tokens to another, it has the larger summand in its measure.
mutual

def readPrimary (ts : List Token) : Option (Derivation dialect .primary × List Token) :=
  match ts with
  | .word text :: rest => if h : isName text = true then some (.name text h, rest) else none
  | .punct "(" :: rest => do
    let (inner, ⟨rest, _⟩) ← within rest (readAssignment rest)
    let ⟨rest, _⟩ ← expect (.punct ")") rest
    return (.brackets inner, rest)
  -- The captures of a lambda are no tokens to a reader who knows them.
  | .punct "[" :: .punct "]" :: .punct "(" :: rest =>
    if h : dialect = .full then do
      let (parameters, ⟨rest, _⟩) ← within rest (readArguments rest)
      let (body, ⟨rest, _⟩) ← within rest (readBody rest)
      return (.lambda h parameters body, rest)
    else none
  | _ => none
termination_by 20 * ts.length

def readPostfixed (ts : List Token) : Option (Derivation dialect .postfixed × List Token) := do
  let (operand, ⟨rest, _⟩) ← within ts (readPrimary ts)
  extend (.primary operand) rest
termination_by 20 * ts.length + 1

def extend (base : Derivation dialect .postfixed) (ts : List Token) :
    Option (Derivation dialect .postfixed × List Token) :=
  match ts with
  | .punct "[" :: rest => do
    let (position, ⟨rest, _⟩) ← within rest (readAssignment rest)
    let ⟨rest, _⟩ ← expect (.punct "]") rest
    extend (.index base position) rest
  | .punct "(" :: rest => do
    let (list, ⟨rest, _⟩) ← within rest (readArguments rest)
    extend (.call base list) rest
  | .punct s :: rest =>
    -- Increments and decrements are no access operators, so the order of these does not matter.
    match (Operator.ofToken? s : Option SuffixOp), (Operator.ofToken? s : Option AccessOp), rest with
    | some op, _, rest => extend (.suffixed base op) rest
    | none, some op, .word text :: rest =>
      if h : isIdentifier text.toList = true then extend (.access base op ⟨text, h⟩) rest else none
    | _, _, _ => some (base, ts)
  | _ => some (base, ts)
termination_by 20 * ts.length

def readUnary (ts : List Token) : Option (Derivation dialect .unary × List Token) :=
  match ts with
  | .word "new" :: .word text :: rest =>
    if htype : isTypeName text.toList = true then
      if h : dialect = .operators → isIdentifier text.toList = true then
        match rest with
        | .punct "(" :: .punct ")" :: rest => some (.single ⟨text, htype⟩ h, rest)
        | .punct "[" :: rest => do
          let (size, ⟨rest, _⟩) ← within rest (readAssignment rest)
          let ⟨rest, _⟩ ← expect (.punct "]") rest
          let (sizes, ⟨rest, _⟩) ← within rest (readDimensions rest)
          return (.array ⟨text, htype⟩ h size sizes, rest)
        | _ => none
      else none
    else none
  | ts@(.punct s :: rest) =>
    match (Operator.ofToken? s : Option PrefixOp) with
    | some op => do
      let (operand, ⟨rest, _⟩) ← within rest (readUnary rest)
      return (.prefixed op operand, rest)
    | none => do
      let (operand, ⟨rest, _⟩) ← within ts (readPostfixed ts)
      return (.postfixed operand, rest)
  | ts => do
    let (operand, ⟨rest, _⟩) ← within ts (readPostfixed ts)
    return (.postfixed operand, rest)
termination_by 20 * ts.length + 2

def readDimensions (ts : List Token) : Option (Derivation dialect .dimensions × List Token) :=
  match ts with
  | .punct "[" :: rest => do
    let (next, ⟨rest, _⟩) ← within rest (readAssignment rest)
    let ⟨rest, _⟩ ← expect (.punct "]") rest
    let (sizes, ⟨rest, _⟩) ← within rest (readDimensions rest)
    return (.nextDimension next sizes, rest)
  | _ => some (.lastDimension, ts)
termination_by 20 * ts.length

def readLevel (p : Nat) (ts : List Token) : Option (Derivation dialect (.level p) × List Token) :=
  if h : p < 13 then do
    -- The leftmost operand is one level tighter; operators of this level then follow in a loop.
    let (operand, ⟨rest, _⟩) ← within ts (readLevel (p + 1) ts)
    climb p (.tighter h operand) rest
  else if h : p = 13 then do
    let (operand, ⟨rest, _⟩) ← within ts (readUnary ts)
    climb p (.unary h operand) rest
  else none
termination_by 20 * ts.length + (16 - p)

def climb (p : Nat) (left : Derivation dialect (.level p)) (ts : List Token) :
    Option (Derivation dialect (.level p) × List Token) :=
  match ts with
  | .punct s :: rest =>
    match (Operator.ofToken? s : Option BinaryOp) with
    | some op =>
      if h : op.spelling ∈ levelOperators p then do
        let (right, ⟨rest, _⟩) ← within rest (readLevel (p + 1) rest)
        climb p (.binary op h left right) rest
      -- Operators of other levels are left to the callers, which are looser.
      else some (left, ts)
    | none => some (left, ts)
  | _ => some (left, ts)
termination_by 20 * ts.length

def readAssignment (ts : List Token) : Option (Derivation dialect .assignment × List Token) := do
  let (left, ⟨rest, _⟩) ← within ts (readLevel 3 ts)
  complete left rest
termination_by 20 * ts.length + 14

def complete (left : Derivation dialect (.level 3)) (ts : List Token) :
    Option (Derivation dialect .assignment × List Token) :=
  match ts with
  | .punct "?" :: rest => do
    let (thenBranch, ⟨rest, _⟩) ← within rest (readAssignment rest)
    let ⟨rest, _⟩ ← expect (.punct ":") rest
    let (elseBranch, ⟨rest, _⟩) ← within rest (readAssignment rest)
    return (.conditional left thenBranch elseBranch, rest)
  | .punct "=" :: rest => do
    let (value, ⟨rest, _⟩) ← within rest (readAssignment rest)
    return (.assign left value, rest)
  | .punct s :: rest =>
    match (Operator.ofToken? s : Option BinaryOp) with
    | some op =>
      if h : op.spelling ∈ compoundAssignments then do
        let (value, ⟨rest, _⟩) ← within rest (readAssignment rest)
        return (.compound op h left value, rest)
      else some (.operation left, ts)
    | none => some (.operation left, ts)
  | _ => some (.operation left, ts)
termination_by 20 * ts.length

def readArguments (ts : List Token) : Option (Derivation dialect .arguments × List Token) :=
  match ts with
  | .punct ")" :: rest => some (.noArgument, rest)
  | ts => do
    let (first, ⟨rest, _⟩) ← within ts (readAssignment ts)
    let (others, ⟨rest, _⟩) ← within rest (readMoreArguments rest)
    return (.firstArgument first others, rest)
termination_by 20 * ts.length + 15

def readMoreArguments (ts : List Token) :
    Option (Derivation dialect .moreArguments × List Token) :=
  match ts with
  | .punct ")" :: rest => some (.lastArgument, rest)
  | .punct "," :: rest => do
    let (next, ⟨rest, _⟩) ← within rest (readAssignment rest)
    let (others, ⟨rest, _⟩) ← within rest (readMoreArguments rest)
    return (.nextArgument next others, rest)
  | _ => none
termination_by 20 * ts.length

def readBody (ts : List Token) : Option (Derivation dialect .body × List Token) :=
  match ts with
  | .openBrace :: .word "return" :: .punct ";" :: rest => do
    let ⟨rest, _⟩ ← expect .closeBrace rest
    return (.bareReturnBody, rest)
  | .openBrace :: .word "return" :: rest => do
    let (value, ⟨rest, _⟩) ← within rest (readAssignment rest)
    let ⟨rest, _⟩ ← expect (.punct ";") rest
    let ⟨rest, _⟩ ← expect .closeBrace rest
    return (.returnBody value, rest)
  | ts => do
    let (inner, ⟨rest, _⟩) ← within ts (readBlock ts)
    return (.blockBody inner, rest)
termination_by 20 * ts.length + 1

def readBlock (ts : List Token) : Option (Derivation dialect .block × List Token) :=
  match ts with
  | .openBrace :: .closeBrace :: rest => some (.emptyBlock, rest)
  | .openBrace :: rest => do
    let (lines, ⟨rest, _⟩) ← within rest (readLines rest)
    return (.block lines, rest)
  | _ => none
termination_by 20 * ts.length

def readLines (ts : List Token) : Option (Derivation dialect .lines × List Token) :=
  match ts with
  | .punct "\n" :: .closeBrace :: rest => some (.lastLine, rest)
  | .punct "\n" :: rest => do
    let (next, ⟨rest, _⟩) ← within rest (readStatement rest)
    let (others, ⟨rest, _⟩) ← within rest (readLines rest)
    return (.nextLine next others, rest)
  | _ => none
termination_by 20 * ts.length

def readStatement (ts : List Token) : Option (Derivation dialect .statement × List Token) :=
  match ts with
  | ts@(.openBrace :: _) => do
    let (inner, ⟨rest, _⟩) ← within ts (readBlock ts)
    return (.blockStatement inner, rest)
  | .word "return" :: .punct ";" :: rest => some (.bareReturn, rest)
  | .word "return" :: rest => do
    let (value, ⟨rest, _⟩) ← within rest (readAssignment rest)
    let ⟨rest, _⟩ ← expect (.punct ";") rest
    return (.returning value, rest)
  | ts => do
    let (value, ⟨rest, _⟩) ← within ts (readAssignment ts)
    let ⟨rest, _⟩ ← expect (.punct ";") rest
    return (.expression value, rest)
termination_by 20 * ts.length + 15

end

def readUnit (ts : List Token) : Option (Derivation dialect .unit × List Token) :=
  match ts with
  | [] => some (.emptyUnit, [])
  | ts => do
    let (first, ⟨rest, _⟩) ← within ts (readStatement dialect ts)
    let ⟨rest, _⟩ ← expect .lineBreak rest
    let (others, ⟨rest, _⟩) ← within rest (readUnit rest)
    return (.unitLine first others, rest)
termination_by ts.length

/-! ## Tokens that end a loop -/

/-- The tokens that hold an operand before them more tightly than any other operator. -/
def postfixTokens : List String :=
  ["++", "--", "[", "(", ".", "->", "::"]

/-- How tightly a token behind an operand holds it, `0` if it ends the expression. -/
def Token.strength : Token → Nat
  | .punct s =>
    if s ∈ postfixTokens then Binding.postfixed
    else if s = "?" then Binding.conditional
    else if s = "=" then Binding.assignment
    else ((Operator.ofToken? s : Option BinaryOp).map BinaryOp.precedence).getD 0
  | _ => 0

theorem ofToken?_binary_eq_none :
    ∀ s ∈ "?" :: "=" :: postfixTokens, (Operator.ofToken? s : Option BinaryOp) = none := by
  decide

theorem Token.strength_binary {s : String} {op : BinaryOp} (h : Operator.ofToken? s = some op) :
    (Token.punct s).strength = op.precedence := by
  have hs : s ∉ "?" :: "=" :: postfixTokens := fun hs => by simp [ofToken?_binary_eq_none s hs] at h
  simp only [List.mem_cons, not_or] at hs
  simp [strength, hs, h]

/-- Whether the first token, if there is one, holds what stands before it less tightly. -/
def Closes (demand : Nat) (ts : List Token) : Prop :=
  ∀ t ∈ ts.head?, t.strength < demand

theorem Closes.mono {weaker stronger : Nat} {ts : List Token} (h : Closes weaker ts)
    (hle : weaker ≤ stronger) : Closes stronger ts :=
  fun t ht => (h t ht).trans_le hle

/-! ## Reading behind an operand -/

section
variable {dialect : Dialect}

theorem extend_index {base : Derivation dialect .postfixed}
    {position : Derivation dialect .assignment} {ts rest : List Token}
    (h : readAssignment dialect (ts ++ .punct "]" :: rest) =
      some (position, .punct "]" :: rest)) :
    extend dialect base (.punct "[" :: (ts ++ .punct "]" :: rest)) =
      extend dialect (.index base position) rest := by
  rw [extend]
  simp [h]

theorem extend_call {base : Derivation dialect .postfixed} {list : Derivation dialect .arguments}
    {ts rest : List Token} (h : readArguments dialect (ts ++ rest) = some (list, rest)) :
    extend dialect base (.punct "(" :: (ts ++ rest)) = extend dialect (.call base list) rest := by
  rw [extend]
  simp [h]

theorem extend_suffixed (base : Derivation dialect .postfixed) (op : SuffixOp) (rest : List Token) :
    extend dialect base (.punct op.spelling :: rest) =
      extend dialect (.suffixed base op) rest := by
  rw [extend.eq_def]
  cases op <;> rfl

theorem extend_access (base : Derivation dialect .postfixed) (op : AccessOp) (member : Identifier)
    (rest : List Token) :
    extend dialect base (.punct op.spelling :: .word member.text :: rest) =
      extend dialect (.access base op member) rest := by
  have h := member.wellSpelled
  rw [extend.eq_def]
  cases op <;> exact dif_pos h

theorem extend_of_closes (base : Derivation dialect .postfixed) {ts : List Token}
    (h : Closes Binding.postfixed ts) : extend dialect base ts = some (base, ts) := by
  have hhead : ∀ s rest, ts = .punct s :: rest → s ∉ postfixTokens := by
    rintro s rest rfl hs
    have hlt := h (.punct s) (by simp)
    rw [Token.strength, if_pos hs] at hlt
    exact lt_irrefl _ hlt
  rw [extend.eq_def]
  split
  · exact absurd (hhead _ _ rfl) (by decide)
  · exact absurd (hhead _ _ rfl) (by decide)
  · next s rest _ _ =>
    -- Every suffix and every access operator is one of the tokens that would go on.
    have hs := hhead s rest rfl
    have hsuffix : (Operator.ofToken? s : Option SuffixOp) = none := by
      apply Operator.ofToken?_eq_none_iff.mpr
      rintro (⟨op, rfl⟩ | hword)
      · cases op <;> exact hs (by decide)
      · cases hword
    have haccess : (Operator.ofToken? s : Option AccessOp) = none := by
      apply Operator.ofToken?_eq_none_iff.mpr
      rintro (⟨op, rfl⟩ | hword)
      · cases op <;> exact hs (by decide)
      · cases hword
    rw [hsuffix, haccess]
  · rfl

/-! ## Reading behind a binary operation -/

theorem climb_binary {p : Nat} {left : Derivation dialect (.level p)} {op : BinaryOp}
    {right : Derivation dialect (.level (p + 1))} {ts rest : List Token}
    (h : op.spelling ∈ levelOperators p)
    (hright : readLevel dialect (p + 1) (ts ++ rest) = some (right, rest)) :
    climb dialect p left (.punct op.spelling :: (ts ++ rest)) =
      climb dialect p (.binary op h left right) rest := by
  rw [climb, op.ofToken?_spelling]
  simp [h, hright]

theorem climb_of_closes {p : Nat} (left : Derivation dialect (.level p)) {ts : List Token}
    (h : Closes p ts) : climb dialect p left ts = some (left, ts) := by
  rw [climb.eq_def]
  split
  · next s rest =>
    split
    · next op hop =>
      have hlt := h (.punct s) (by simp)
      rw [Token.strength_binary hop] at hlt
      exact dif_neg fun hlevel => hlt.ne (BinaryOp.mem_levelOperators.mp hlevel).1
    · rfl
  · rfl

theorem readLevel_unary {operand : Derivation dialect .unary} {ts rest : List Token}
    (h : readUnary dialect (ts ++ rest) = some (operand, rest)) {p : Nat} (hp : p = 13) :
    readLevel dialect p (ts ++ rest) = climb dialect p (.unary hp operand) rest := by
  rw [readLevel]
  simp [hp, h]

theorem readLevel_tighter {p : Nat} {operand : Derivation dialect (.level (p + 1))}
    {ts rest : List Token} (h : readLevel dialect (p + 1) (ts ++ rest) = some (operand, rest))
    (hp : p < 13) :
    readLevel dialect p (ts ++ rest) = climb dialect p (.tighter hp operand) rest := by
  rw [readLevel]
  simp [hp, h]

/-! ## Reading behind the left operand of an assignment -/

theorem readAssignment_level {left : Derivation dialect (.level 3)} {ts rest : List Token}
    (h : readLevel dialect 3 (ts ++ rest) = some (left, rest)) :
    readAssignment dialect (ts ++ rest) = complete dialect left rest := by
  rw [readAssignment]
  simp [h]

theorem complete_conditional {condition : Derivation dialect (.level 3)}
    {thenBranch elseBranch : Derivation dialect .assignment} {ts us rest : List Token}
    (hthen : readAssignment dialect (ts ++ .punct ":" :: (us ++ rest)) =
      some (thenBranch, .punct ":" :: (us ++ rest)))
    (helse : readAssignment dialect (us ++ rest) = some (elseBranch, rest)) :
    complete dialect condition (.punct "?" :: (ts ++ .punct ":" :: (us ++ rest))) =
      some (.conditional condition thenBranch elseBranch, rest) := by
  rw [complete]
  simp [hthen, helse]

theorem complete_assign {target : Derivation dialect (.level 3)}
    {value : Derivation dialect .assignment} {ts rest : List Token}
    (h : readAssignment dialect (ts ++ rest) = some (value, rest)) :
    complete dialect target (.punct "=" :: (ts ++ rest)) = some (.assign target value, rest) := by
  rw [complete]
  simp [h]

theorem complete_compound {op : BinaryOp} {target : Derivation dialect (.level 3)}
    {value : Derivation dialect .assignment} {ts rest : List Token}
    (h : op.spelling ∈ compoundAssignments)
    (hvalue : readAssignment dialect (ts ++ rest) = some (value, rest)) :
    complete dialect target (.punct op.spelling :: (ts ++ rest)) =
      some (.compound op h target value, rest) := by
  have hne : op.spelling ≠ "?" ∧ op.spelling ≠ "=" := by cases op <;> decide
  rw [complete, op.ofToken?_spelling]
  · simp [h, hvalue]
  · exact fun heq => hne.1 heq
  · exact fun heq => hne.2 heq

theorem complete_of_closes (left : Derivation dialect (.level 3)) {ts : List Token}
    (h : Closes Binding.assignment ts) : complete dialect left ts = some (.operation left, ts) := by
  rw [complete.eq_def]
  split
  · exact absurd (h (.punct "?") (by simp)) (by decide)
  · exact absurd (h (.punct "=") (by simp)) (by decide)
  · next s rest _ _ =>
    split
    · next op hop =>
      have hlt := h (.punct s) (by simp)
      rw [Token.strength_binary hop] at hlt
      exact dif_neg fun hcompound => hlt.ne (BinaryOp.mem_compoundAssignments.mp hcompound)
    · rfl
  · rfl

end

end CppTree
