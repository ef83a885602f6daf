import CppTree.Proofs.Grammar.Reader

/-!
# Unambiguity

The reader finds every derivation again from the tokens that it derives, whatever follows them as
long as it cannot be taken for a continuation.  So no two derivations derive the same tokens.  Main
statements: `Derivation.read` and, from it, `Derivation.eq_of_yield`.
-/

namespace CppTree

variable {dialect : Dialect}

/-! ## How derivations begin -/

/-- Whether a token may come first in an operand of a postfix operator. -/
def Token.startsOperand : Token → Bool
  | .word text => isName text
  | .punct s => s == "(" || s == "["
  | _ => false

def Token.startsExpression (t : Token) : Bool :=
  t.startsOperand || t == .word "new" || PrefixOp.all.any fun op => t == .punct op.spelling

/-- Whether there is a first token, and one of these. -/
def StartsWith (first : Token → Bool) (ts : List Token) : Prop :=
  ∃ t rest, ts = t :: rest ∧ first t = true

theorem StartsWith.append {first : Token → Bool} {ts : List Token} (h : StartsWith first ts)
    (more : List Token) : StartsWith first (ts ++ more) := by
  obtain ⟨t, rest, rfl, ht⟩ := h
  exact ⟨t, rest ++ more, rfl, ht⟩

theorem StartsWith.mono {first wider : Token → Bool} {ts : List Token} (h : StartsWith first ts)
    (hwider : ∀ t, first t = true → wider t = true) : StartsWith wider ts := by
  obtain ⟨t, rest, rfl, ht⟩ := h
  exact ⟨t, rest, rfl, hwider t ht⟩

theorem StartsWith.ne_cons {first : Token → Bool} {ts : List Token} (h : StartsWith first ts)
    {t : Token} (ht : first t = false) (rest : List Token) : ts ≠ t :: rest := by
  rintro rfl
  obtain ⟨_, _, hcons, hfirst⟩ := h
  cases hcons
  simp [ht] at hfirst

theorem StartsWith.cons {first : Token → Bool} {t : Token} (ht : first t = true)
    (rest : List Token) : StartsWith first (t :: rest) :=
  ⟨t, rest, rfl, ht⟩

/-- How the tokens begin that a nonterminal derives, where the reader looks ahead to them. -/
def Nonterminal.Begins : Nonterminal → List Token → Prop
  | primary | postfixed => StartsWith Token.startsOperand
  | unary | level _ | assignment => StartsWith Token.startsExpression
  | arguments => StartsWith fun t => t == .punct ")" || t.startsExpression
  | moreArguments => StartsWith fun t => t == .punct ")" || t == .punct ","
  | body | block => StartsWith fun t => t == .openBrace
  | lines => StartsWith fun t => t == .lineBreak
  | statement =>
    StartsWith fun t => t == .openBrace || t == .word "return" || t.startsExpression
  | dimensions | unit => fun _ => True

namespace Derivation

theorem begins {n : Nonterminal} (d : Derivation dialect n) : n.Begins d.yield := by
  induction d with
  | name text h => exact .cons h _
  | brackets | lambda | single | array | noArgument | lastArgument | nextArgument | bareReturnBody
  | returnBody | emptyBlock | block | lastLine | nextLine | bareReturn | returning =>
    exact .cons rfl _
  | prefixed op operand => exact .cons (by cases op <;> rfl) _
  | primary operand ih | blockBody inner ih => exact ih
  | unary h operand ih | tighter h operand ih | operation operand ih => exact ih
  | suffixed base op ih => exact ih.append _
  | index base position ih => exact ih.append _
  | call base list ih => exact ih.append _
  | access base op member ih => exact ih.append _
  | binary op h left right ih => exact ih.append _
  | conditional condition thenBranch elseBranch ih => exact ih.append _
  | assign target value ih | compound op h target value ih => exact ih.append _
  | postfixed operand ih =>
    exact ih.mono fun t ht => by simp [Token.startsExpression, ht]
  | firstArgument first rest ih =>
    exact (ih.append _).mono fun t ht => by simp [ht]
  | blockStatement inner ih => exact ih.mono fun t ht => by simp [ht]
  | expression value ih => exact (ih.append _).mono fun t ht => by simp [ht]
  | lastDimension | nextDimension | emptyUnit | unitLine => trivial

theorem yield_append_ne_return (d : Derivation dialect .block) (rest more : List Token) :
    d.yield ++ rest ≠ .openBrace :: .word "return" :: more := by
  cases d with
  | emptyBlock => simp [yield]
  | block inner =>
    rw [yield, List.cons_append]
    intro h
    -- Behind the bracket of a block comes a line break.
    exact (inner.begins.append rest).ne_cons (by decide) more (List.cons_inj_right _ |>.mp h)

end Derivation

/-! ## Reading what was derived -/

theorem Closes.cons {demand : Nat} {t : Token} (h : t.strength < demand) (rest : List Token) :
    Closes demand (t :: rest) := by
  simpa [Closes] using h

theorem Closes.of_begins_moreArguments {ts : List Token} (h : Nonterminal.moreArguments.Begins ts) :
    Closes Binding.assignment ts := by
  obtain ⟨t, rest, rfl, ht⟩ := h
  rcases (by simpa using ht : t = .punct ")" ∨ t = .punct ",") with rfl | rfl <;>
    exact .cons (by decide) rest

theorem readUnary_postfixed {operand : Derivation dialect .postfixed} {ts rest : List Token}
    (h : readPostfixed dialect ts = some (operand, rest)) (hle : rest.length ≤ ts.length)
    (hstart : StartsWith Token.startsOperand ts) :
    readUnary dialect ts = some (.postfixed operand, rest) := by
  have hread : within ts (readPostfixed dialect ts) = some (operand, ⟨rest, hle⟩) := by
    rw [h, within_of_le hle]
  obtain ⟨t, more, rfl, ht⟩ := hstart
  -- An operand starts neither with `new` nor with a prefix operator, so the last branch is taken.
  cases t with
  | word text =>
    rw [readUnary, hread]
    · rfl
    · intro text more hnew
      cases hnew
      exact absurd ht (by decide)
    · simp
  | punct s =>
    rcases (by simpa [Token.startsOperand] using ht : s = "(" ∨ s = "[") with rfl | rfl <;>
      · rw [readUnary.eq_def]
        exact congrArg (Option.bind · _) hread
  | stray c => exact absurd ht (by simp [Token.startsOperand])

theorem readUnary_prefixed {op : PrefixOp} {operand : Derivation dialect .unary}
    {ts rest : List Token} (h : readUnary dialect (ts ++ rest) = some (operand, rest)) :
    readUnary dialect (.punct op.spelling :: (ts ++ rest)) = some (.prefixed op operand, rest) := by
  have hread : within (ts ++ rest) (readUnary dialect (ts ++ rest)) =
      some (operand, ⟨rest, by simp⟩) := by
    rw [h, within_append]
  rw [readUnary.eq_def]
  cases op <;> exact congrArg (Option.bind · _) hread

namespace Derivation

/-- Whether the reader finds a derivation again.  Behind an operand it goes on with its loop. -/
def Read : {n : Nonterminal} → Derivation dialect n → Prop
  | .primary, d => ∀ rest, readPrimary dialect (d.yield ++ rest) = some (d, rest)
  | .postfixed, d => ∀ rest, readPostfixed dialect (d.yield ++ rest) = extend dialect d rest
  | .unary, d => ∀ rest, Closes Binding.postfixed rest →
      readUnary dialect (d.yield ++ rest) = some (d, rest)
  | .level p, d => ∀ rest, Closes (p + 1) rest →
      readLevel dialect p (d.yield ++ rest) = climb dialect p d rest
  | .assignment, d => ∀ rest, Closes Binding.assignment rest →
      readAssignment dialect (d.yield ++ rest) = some (d, rest)
  | .arguments, d => ∀ rest, readArguments dialect (d.yield ++ rest) = some (d, rest)
  | .moreArguments, d => ∀ rest, readMoreArguments dialect (d.yield ++ rest) = some (d, rest)
  | .dimensions, d => ∀ rest, Closes Binding.postfixed rest →
      readDimensions dialect (d.yield ++ rest) = some (d, rest)
  | .body, d => ∀ rest, readBody dialect (d.yield ++ rest) = some (d, rest)
  | .block, d => ∀ rest, readBlock dialect (d.yield ++ rest) = some (d, rest)
  | .lines, d => ∀ rest, readLines dialect (d.yield ++ rest) = some (d, rest)
  | .statement, d => ∀ rest, readStatement dialect (d.yield ++ rest) = some (d, rest)
  | .unit, d => readUnit dialect d.yield = some (d, [])

theorem Read.level_of_closes {p : Nat} {d : Derivation dialect (.level p)} (h : d.Read)
    (rest : List Token) (hrest : Closes p rest) :
    readLevel dialect p (d.yield ++ rest) = some (d, rest) := by
  rw [h rest (hrest.mono (Nat.le_succ p)), climb_of_closes d hrest]

theorem read {n : Nonterminal} (d : Derivation dialect n) : d.Read := by
  -- By induction on the derivation.  Where the grammar is recursive on the left, the hypothesis for
  -- the left part says that the reader goes on with its loop, which then takes one step.
  induction d with
  | name text h =>
    intro rest
    rw [yield, List.singleton_append, readPrimary]
    simp [h]
  | brackets inner ih =>
    intro rest
    have hinner := ih (.punct ")" :: rest) (.cons (by decide) rest)
    rw [yield, List.cons_append, List.append_assoc, readPrimary, List.singleton_append, hinner]
    simp [expect]
  | lambda h parameters body ihparameters ihbody =>
    intro rest
    rw [yield, List.cons_append, List.cons_append, List.cons_append, List.append_assoc, readPrimary]
    simp [h, ihparameters _, ihbody rest]
  | primary operand ih =>
    intro rest
    rw [readPostfixed, yield, ih rest]
    simp
  | suffixed base op ih =>
    intro rest
    rw [yield, List.append_assoc, ih, List.singleton_append, extend_suffixed]
  | index base position ihbase ihposition =>
    intro rest
    have hposition := ihposition (.punct "]" :: rest) (.cons (by decide) rest)
    rw [yield, List.append_assoc, ihbase, List.cons_append, List.append_assoc]
    exact extend_index hposition
  | call base list ihbase ihlist =>
    intro rest
    rw [yield, List.append_assoc, ihbase, List.cons_append]
    exact extend_call (ihlist rest)
  | access base op member ih =>
    intro rest
    rw [yield, List.append_assoc, ih]
    exact extend_access base op member rest
  | postfixed operand ih =>
    intro rest hrest
    -- Here the loop ends: nothing that follows holds the operand as tightly.
    have hread : readPostfixed dialect (operand.yield ++ rest) = some (operand, rest) := by
      rw [ih rest, extend_of_closes operand hrest]
    exact readUnary_postfixed hread (by simp) (operand.begins.append rest)
  | prefixed op operand ih =>
    intro rest hrest
    rw [yield, List.cons_append]
    exact readUnary_prefixed (ih rest hrest)
  | single elementType h =>
    intro rest _
    have htype := elementType.wellSpelled
    simp only [yield, List.cons_append, List.nil_append]
    rw [readUnary, dif_pos htype, dif_pos h]
    rfl
  | array elementType h size sizes ihsize ihsizes =>
    intro rest hrest
    have htype := elementType.wellSpelled
    have hsize := ihsize (.punct "]" :: (sizes.yield ++ rest)) (.cons (by decide) _)
    simp only [yield, List.cons_append, List.append_assoc]
    rw [readUnary, dif_pos htype, dif_pos h]
    simp [hsize, expect, ihsizes rest hrest]
  | unary h operand ih =>
    intro rest hrest
    subst h
    rw [yield, readLevel_unary (ih rest hrest) rfl]
  | tighter h operand ih =>
    intro rest hrest
    rw [yield, readLevel_tighter (ih.level_of_closes rest hrest) h]
  | @binary p op h left right ihleft ihright =>
    intro rest hrest
    -- The operator is of the level itself, so it does not end the left operand's loop.
    have hop : Closes (p + 1) (.punct op.spelling :: (right.yield ++ rest)) := by
      refine .cons ?_ _
      rw [Token.strength_binary op.ofToken?_spelling, (BinaryOp.mem_levelOperators.mp h).1]
      exact Nat.lt_succ_self p
    rw [yield, List.append_assoc, List.cons_append, ihleft _ hop,
      climb_binary h (ihright.level_of_closes rest hrest)]
  | operation operand ih =>
    intro rest hrest
    rw [yield, readAssignment_level (ih.level_of_closes rest (hrest.mono (by decide)))]
    exact complete_of_closes operand hrest
  | conditional condition thenBranch elseBranch ihcondition ihthen ihelse =>
    intro rest hrest
    have hthen := ihthen (.punct ":" :: (elseBranch.yield ++ rest)) (.cons (by decide) _)
    -- The question mark is looser than any binary operator, so the condition ends before it.
    have hcondition := ihcondition.level_of_closes
      (.punct "?" :: (thenBranch.yield ++ .punct ":" :: (elseBranch.yield ++ rest)))
      (.cons (by decide) _)
    simp only [yield, List.append_assoc, List.cons_append]
    rw [readAssignment_level hcondition]
    exact complete_conditional hthen (ihelse rest hrest)
  | assign target value ihtarget ihvalue =>
    intro rest hrest
    have htarget := ihtarget.level_of_closes (.punct "=" :: (value.yield ++ rest))
      (.cons (by decide) _)
    rw [yield, List.append_assoc, List.cons_append, readAssignment_level htarget]
    exact complete_assign (ihvalue rest hrest)
  | compound op h target value ihtarget ihvalue =>
    intro rest hrest
    have hop : Closes 3 (.punct op.spelling :: (value.yield ++ rest)) := by
      refine .cons ?_ _
      rw [Token.strength_binary op.ofToken?_spelling, BinaryOp.mem_compoundAssignments.mp h]
      decide
    rw [yield, List.append_assoc, List.cons_append,
      readAssignment_level (ihtarget.level_of_closes _ hop)]
    exact complete_compound h (ihvalue rest hrest)
  | noArgument =>
    intro rest
    rw [yield, List.singleton_append, readArguments]
  | firstArgument first others ihfirst ihothers =>
    intro rest
    have hfirst := ihfirst (others.yield ++ rest) (.of_begins_moreArguments (others.begins.append _))
    rw [yield, List.append_assoc, readArguments, hfirst]
    · simp [ihothers rest]
    -- An argument does not start with the bracket that would close an empty list.
    · exact (first.begins.append _).ne_cons (by decide)
  | lastArgument =>
    intro rest
    rw [yield, List.singleton_append, readMoreArguments]
  | nextArgument next others ihnext ihothers =>
    intro rest
    have hnext := ihnext (others.yield ++ rest) (.of_begins_moreArguments (others.begins.append _))
    rw [yield, List.cons_append, List.append_assoc, readMoreArguments, hnext]
    simp [ihothers rest]
  | lastDimension =>
    intro rest hrest
    rw [yield, List.nil_append, readDimensions]
    rintro more rfl
    exact absurd (hrest (.punct "[") (by simp)) (by decide)
  | nextDimension next others ihnext ihothers =>
    intro rest hrest
    have hnext := ihnext (.punct "]" :: (others.yield ++ rest)) (.cons (by decide) _)
    simp only [yield, List.cons_append, List.append_assoc]
    rw [readDimensions, hnext]
    simp [ihothers rest hrest]
  | blockBody inner ih =>
    intro rest
    have hinner := ih rest
    rw [yield, readBody, hinner]
    · simp
    · exact fun more => inner.yield_append_ne_return rest _
    · exact inner.yield_append_ne_return rest
  | bareReturnBody =>
    intro rest
    simp only [yield, List.cons_append, List.nil_append]
    rw [readBody]
    rfl
  | returnBody value ih =>
    intro rest
    have hvalue := ih (.punct ";" :: .closeBrace :: rest) (.cons (by decide) _)
    simp only [yield, List.cons_append, List.append_assoc, List.nil_append]
    rw [readBody, hvalue]
    · simp [expect]
    · exact (value.begins.append _).ne_cons (by decide)
  | emptyBlock =>
    intro rest
    simp only [yield, List.cons_append, List.nil_append]
    rw [readBlock]
  | block inner ih =>
    intro rest
    rw [yield, List.cons_append, readBlock, ih rest]
    · simp
    · exact (inner.begins.append _).ne_cons (by decide)
  | lastLine =>
    intro rest
    simp only [yield, List.cons_append, List.nil_append, Token.lineBreak]
    rw [readLines]
  | nextLine next others ihnext ihothers =>
    intro rest
    rw [yield, List.cons_append, List.append_assoc, Token.lineBreak, readLines, ihnext]
    · simp [ihothers rest]
    · exact (next.begins.append _).ne_cons (by decide)
  | blockStatement inner ih =>
    intro rest
    obtain ⟨t, ts, hts, ht⟩ := inner.begins.append rest
    obtain rfl : t = .openBrace := by simpa using ht
    have hinner := ih rest
    rw [yield, hts, readStatement, ← hts, hinner]
    simp
  | bareReturn =>
    intro rest
    simp only [yield, List.cons_append, List.nil_append]
    rw [readStatement]
  | returning value ih =>
    intro rest
    have hvalue := ih (.punct ";" :: rest) (.cons (by decide) _)
    simp only [yield, List.cons_append, List.append_assoc, List.nil_append]
    rw [readStatement, hvalue]
    · simp [expect]
    · exact (value.begins.append _).ne_cons (by decide)
  | expression value ih =>
    intro rest
    have hvalue := ih (.punct ";" :: rest) (.cons (by decide) _)
    simp only [yield, List.append_assoc, List.singleton_append]
    -- An expression begins neither like a block nor like a return.
    have hbegins := value.begins.append (.punct ";" :: rest)
    rw [readStatement, hvalue]
    · simp [expect]
    · exact hbegins.ne_cons (by decide)
    · exact fun more => hbegins.ne_cons (by decide) _
    · exact hbegins.ne_cons (by decide)
  | emptyUnit =>
    exact readUnit.eq_1 dialect
  | unitLine first others ihfirst ihothers =>
    have hempty : ([] : List Token).length ≤ others.yield.length := Nat.zero_le _
    rw [Read] at ihothers ⊢
    rw [yield, readUnit, ihfirst]
    · simp [Token.lineBreak, ihothers, within_of_le hempty]
    · obtain ⟨t, ts, hts, -⟩ := first.begins
      simp [hts]

/-- No two derivations of an expression derive the same tokens. -/
theorem eq_of_yield {d e : Derivation dialect .assignment} (h : d.yield = e.yield) : d = e := by
  have hd := d.read [] (by simp [Closes])
  have he := e.read [] (by simp [Closes])
  rw [h, he] at hd
  simpa using hd.symm

theorem unit_eq_of_yield {d e : Derivation dialect .unit} (h : d.yield = e.yield) : d = e := by
  have hd : readUnit dialect d.yield = some (d, []) := d.read
  have he : readUnit dialect e.yield = some (e, []) := e.read
  rw [h, he] at hd
  simpa using hd.symm

end Derivation

end CppTree
