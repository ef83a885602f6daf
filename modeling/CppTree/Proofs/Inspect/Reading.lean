import CppTree.Inspect.Form

/-!
# Reading forms back

The forms of inspection show where they end: a text that begins with the form of a value begins with
the form of no other value of its kind, and goes on behind it in one way.  Main statements:
`Inspect.readsBack_quoted` and `Inspect.ReadsBack.listed`.
-/

namespace CppTree
namespace Inspect

/-- Whether a text that begins with the form of a value begins with that of no other value and goes
on behind it in one way. -/
def ReadsBack {α : Type} (form : α → String) (a : α) : Prop :=
  ∀ (b : α) (rest rest' : List Char),
    (form a).toList ++ rest = (form b).toList ++ rest' → a = b ∧ rest = rest'

/-- Characters of a class are told from a character behind them that is not of the class. -/
theorem eq_of_run {p : Char → Bool} {xs ys rest rest' : List Char} {c d : Char}
    (hxs : ∀ x ∈ xs, p x = true) (hys : ∀ y ∈ ys, p y = true) (hc : p c = false) (hd : p d = false)
    (h : xs ++ c :: rest = ys ++ d :: rest') : xs = ys ∧ c = d ∧ rest = rest' := by
  induction xs generalizing ys with
  | nil =>
    cases ys with
    | nil => simpa using h
    | cons y ys =>
      rw [List.nil_append, List.cons_append, List.cons.injEq] at h
      rw [h.1, hys y (by simp)] at hc
      cases hc
  | cons x xs ih =>
    cases ys with
    | nil =>
      rw [List.nil_append, List.cons_append, List.cons.injEq] at h
      rw [← h.1, hxs x (by simp)] at hd
      cases hd
    | cons y ys =>
      rw [List.cons_append, List.cons_append, List.cons.injEq] at h
      have htail := ih (fun z hz => hxs z (List.mem_cons_of_mem x hz))
        (fun z hz => hys z (List.mem_cons_of_mem y hz)) h.2
      rw [h.1, htail.1]
      exact ⟨rfl, htail.2⟩

/-! ## Quoted texts -/

theorem digitChar_inj {m n : Nat} (hm : m < 16) (hn : n < 16)
    (h : Nat.digitChar m = Nat.digitChar n) : m = n := by
  have hall : ∀ m < 16, ∀ n < 16, Nat.digitChar m = Nat.digitChar n → m = n := by decide
  exact hall m hm n hn h

theorem toDigits_inj {m n : Nat} (h : Nat.toDigits 16 m = Nat.toDigits 16 n) : m = n := by
  induction m using Nat.strongRecOn generalizing n with
  | ind m ih =>
    have hlast (k : Nat) : k % 16 < 16 := Nat.mod_lt k (by decide)
    by_cases hm : m < 16 <;> by_cases hn : n < 16
    · rw [Nat.toDigits_of_lt_base hm, Nat.toDigits_of_lt_base hn, List.cons.injEq] at h
      exact digitChar_inj hm hn h.1
    · rw [Nat.toDigits_of_lt_base hm,
        Nat.toDigits_of_base_le (by decide) (Nat.le_of_not_lt hn)] at h
      simpa using congrArg List.length h
    · rw [Nat.toDigits_of_lt_base hn,
        Nat.toDigits_of_base_le (by decide) (Nat.le_of_not_lt hm)] at h
      simpa using congrArg List.length h
    · rw [Nat.toDigits_of_base_le (by decide) (Nat.le_of_not_lt hm),
        Nat.toDigits_of_base_le (by decide) (Nat.le_of_not_lt hn)] at h
      obtain ⟨hfront, hback⟩ := List.append_inj' h rfl
      have hquotient := ih (m / 16) (by omega) hfront
      have hremainder := digitChar_inj (hlast m) (hlast n) (List.cons.inj hback).1
      omega

theorem ne_brace_of_mem_toDigits {n : Nat} {c : Char} (h : c ∈ Nat.toDigits 16 n) : c ≠ '}' := by
  have hdigit : ∀ k < 16, Nat.digitChar k ≠ '}' := by decide
  induction n using Nat.strongRecOn with
  | ind n ih =>
    by_cases hn : n < 16
    · rw [Nat.toDigits_of_lt_base hn, List.mem_singleton] at h
      rw [h]
      exact hdigit n hn
    · rw [Nat.toDigits_of_base_le (by decide) (Nat.le_of_not_lt hn), List.mem_append,
        List.mem_singleton] at h
      rcases h with h | rfl
      · exact ih (n / 16) (by omega) h
      · exact hdigit _ (Nat.mod_lt n (by decide))

/-- What a character is written as: a letter behind a backslash, a code point, or itself. -/
theorem escaped_cases (hidden : Char → Bool) (c : Char) :
    (∃ letter ≠ 'u', (c, letter) ∈ letters ∧ escaped hidden c = ['\\', letter]) ∨
      escaped hidden c = '\\' :: 'u' :: '{' :: (Nat.toDigits 16 c.toNat ++ ['}']) ∨
      c ≠ '\\' ∧ c ≠ '"' ∧ escaped hidden c = [c] := by
  unfold escaped
  cases hletter : letters.lookup c with
  | some letter =>
    have hmem : (c, letter) ∈ letters := by
      obtain ⟨before, after, hsplit, -⟩ := List.lookup_eq_some_iff.mp hletter
      rw [hsplit]
      exact List.mem_append_right before (by simp)
    have hu : ∀ p ∈ letters, p.2 ≠ 'u' := by decide
    exact .inl ⟨letter, hu _ hmem, hmem, rfl⟩
  | none =>
    simp only
    split
    · exact .inr (.inl rfl)
    · refine .inr (.inr ⟨?_, ?_, rfl⟩) <;> rintro rfl <;> cases hletter

theorem letters_inj {c d letter : Char} (hc : (c, letter) ∈ letters) (hd : (d, letter) ∈ letters) :
    c = d := by
  have hall : ∀ p ∈ letters, ∀ q ∈ letters, p.2 = q.2 → p.1 = q.1 := by decide
  exact hall _ hc _ hd rfl

theorem eq_of_escaped_append {hidden : Char → Bool} {c d : Char} {rest rest' : List Char}
    (h : escaped hidden c ++ rest = escaped hidden d ++ rest') : c = d ∧ rest = rest' := by
  rcases escaped_cases hidden c with ⟨l, hl, hcl, hc⟩ | hc | ⟨hback, hquote, hc⟩ <;>
    rcases escaped_cases hidden d with ⟨l', hl', hdl, hd⟩ | hd | ⟨hback', hquote', hd⟩ <;>
    rw [hc, hd] at h
  · obtain ⟨rfl, hrest⟩ : l = l' ∧ rest = rest' := by simpa using h
    exact ⟨letters_inj hcl hdl, hrest⟩
  · exact absurd (List.cons.inj (List.cons.inj h).2).1 hl
  · exact absurd (List.cons.inj h).1.symm hback'
  · exact absurd (List.cons.inj (List.cons.inj h).2).1.symm hl'
  · have hclass {n : Nat} : ∀ x ∈ Nat.toDigits 16 n, (x != '}') = true := fun x hx => by
      simpa using ne_brace_of_mem_toDigits hx
    have hdigits : Nat.toDigits 16 c.toNat ++ '}' :: rest =
        Nat.toDigits 16 d.toNat ++ '}' :: rest' := by simpa using h
    obtain ⟨hdigits, -, hrest⟩ := eq_of_run hclass hclass (by decide) (by decide) hdigits
    exact ⟨Char.toNat_inj.mp (toDigits_inj hdigits), hrest⟩
  · exact absurd (List.cons.inj h).1.symm hback'
  · exact absurd (List.cons.inj h).1 hback
  · exact absurd (List.cons.inj h).1 hback
  · simpa using h

/-- The quote that ends a text is not the beginning of a character in it. -/
theorem escaped_append_ne (hidden : Char → Bool) (c : Char) (cs rest : List Char) :
    escaped hidden c ++ cs ≠ '"' :: rest := by
  intro h
  rcases escaped_cases hidden c with ⟨letter, -, -, hc⟩ | hc | ⟨-, hquote, hc⟩ <;> rw [hc] at h
  · exact absurd (List.cons.inj h).1 (by decide)
  · exact absurd (List.cons.inj h).1 (by decide)
  · exact absurd (List.cons.inj h).1 hquote

theorem eq_of_flatMap_escaped {hidden : Char → Bool} {cs ds rest rest' : List Char}
    (h : cs.flatMap (escaped hidden) ++ '"' :: rest = ds.flatMap (escaped hidden) ++ '"' :: rest') :
    cs = ds ∧ rest = rest' := by
  induction cs generalizing ds with
  | nil =>
    cases ds with
    | nil => simpa using h
    | cons d ds =>
      rw [List.flatMap_cons, List.append_assoc] at h
      exact absurd h.symm (escaped_append_ne hidden d _ _)
  | cons c cs ih =>
    rw [List.flatMap_cons, List.append_assoc] at h
    cases ds with
    | nil => exact absurd h (escaped_append_ne hidden c _ _)
    | cons d ds =>
      rw [List.flatMap_cons, List.append_assoc] at h
      obtain ⟨rfl, htail⟩ := eq_of_escaped_append h
      obtain ⟨rfl, hrest⟩ := ih htail
      exact ⟨rfl, hrest⟩

theorem readsBack_quoted (hidden : Char → Bool) (text : String) :
    ReadsBack (quoted hidden) text := by
  intro other rest rest' h
  obtain ⟨htext, hrest⟩ := eq_of_flatMap_escaped (by simpa [quoted, String.toList_append] using h)
  exact ⟨String.toList_injective htext, hrest⟩

/-! ## Constructors and lists -/

namespace ReadsBack

variable {α : Type} {form : α → String}

theorem eq_of_form_eq {a b : α} (h : ReadsBack form a) (hform : form a = form b) : a = b :=
  (h b [] [] (by rw [hform])).1

theorem applied {a : α} (h : ReadsBack form a) (name : String) :
    ReadsBack (fun b => applied name (form b)) a := by
  intro b rest rest' hform
  simp only [Inspect.applied, String.toList_append, List.append_assoc, List.append_cancel_left_eq]
    at hform
  obtain ⟨rfl, hrest⟩ := h b _ _ hform
  exact ⟨rfl, List.append_cancel_left hrest⟩

end ReadsBack

/-- The items of a list behind the first one, with the end of the list. -/
def moreItems (items : List String) : List Char :=
  items.flatMap (fun item => ", ".toList ++ item.toList) ++ [']']

theorem toList_listed_nil : (listed []).toList = ['[', ']'] := rfl

theorem toList_listed_cons (item : String) (items : List String) :
    (listed (item :: items)).toList = '[' :: (item.toList ++ moreItems items) := by
  have hitems : (", ".intercalate (item :: items)).toList =
      item.toList ++ items.flatMap (fun item => ", ".toList ++ item.toList) := by
    induction items generalizing item with
    | nil => simp
    | cons next items ih =>
      rw [String.intercalate_cons_cons, String.toList_append, String.toList_append, ih,
        List.flatMap_cons, List.append_assoc, List.append_assoc]
  simp [listed, moreItems, hitems, String.toList_append]

theorem ReadsBack.moreItems {α : Type} {form : α → String} {as bs : List α} {rest rest' : List Char}
    (h : ∀ a ∈ as, ReadsBack form a)
    (hform : moreItems (as.map form) ++ rest = moreItems (bs.map form) ++ rest') :
    as = bs ∧ rest = rest' := by
  have hcons (b : α) (bs : List α) : Inspect.moreItems ((b :: bs).map form) =
      ", ".toList ++ ((form b).toList ++ Inspect.moreItems (bs.map form)) := by
    simp [Inspect.moreItems]
  induction as generalizing bs with
  | nil =>
    cases bs with
    | nil => exact ⟨rfl, List.append_cancel_left hform⟩
    | cons b bs => exact absurd (List.cons.inj hform).1 (by decide)
  | cons a as ih =>
    cases bs with
    | nil => exact absurd (List.cons.inj hform).1 (by decide)
    | cons b bs =>
      rw [hcons, hcons, List.append_assoc, List.append_assoc, List.append_assoc,
        List.append_assoc] at hform
      obtain ⟨rfl, htail⟩ := h a (by simp) b _ _ (List.append_cancel_left hform)
      obtain ⟨rfl, hrest⟩ := ih (fun c hc => h c (List.mem_cons_of_mem a hc)) htail
      exact ⟨rfl, hrest⟩

/-- A list is read back if its members are and the form of no value looks like the end of a list. -/
theorem ReadsBack.listed {α : Type} {form : α → String} {as : List α}
    (h : ∀ a ∈ as, ReadsBack form a)
    (hstart : ∀ (b : α) (cs rest : List Char), (form b).toList ++ cs ≠ ']' :: rest) :
    ReadsBack (fun bs => listed (bs.map form)) as := by
  intro bs rest rest' hform
  replace hform : (Inspect.listed (as.map form)).toList ++ rest =
    (Inspect.listed (bs.map form)).toList ++ rest' := hform
  cases as with
  | nil =>
    cases bs with
    | nil => exact ⟨rfl, List.append_cancel_left hform⟩
    | cons b bs =>
      simp only [List.map_nil, List.map_cons, toList_listed_nil, toList_listed_cons,
        List.cons_append, List.append_assoc] at hform
      exact absurd (List.cons.inj hform).2.symm (hstart b _ _)
  | cons a as =>
    cases bs with
    | nil =>
      simp only [List.map_nil, List.map_cons, toList_listed_nil, toList_listed_cons,
        List.cons_append, List.append_assoc] at hform
      exact absurd (List.cons.inj hform).2 (hstart a _ _)
    | cons b bs =>
      simp only [List.map_cons, toList_listed_cons, List.cons_append, List.append_assoc] at hform
      obtain ⟨rfl, htail⟩ := h a (by simp) b _ _ (List.cons.inj hform).2
      obtain ⟨rfl, hrest⟩ := moreItems (fun c hc => h c (List.mem_cons_of_mem a hc)) htail
      exact ⟨rfl, hrest⟩

end Inspect
end CppTree
