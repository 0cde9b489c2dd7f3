import ContentVault.Text.Letters
import Mathlib.Data.List.TakeWhile

/-! # What trimming leaves

    Trimming takes blanks off both ends of a text and nothing else
    (`trimChars_split`), and it takes all of them (`trimChars_of_framed`). -/

namespace ContentVault.Text

/-- What comes before and after what is left are blanks. -/
theorem trimChars_split (cs : List Char) :
    ∃ before after, cs = before ++ trimChars cs ++ after ∧
      (∀ c ∈ before, isBlank c = true) ∧ ∀ c ∈ after, isBlank c = true := by
  refine ⟨cs.takeWhile isBlank, ((cs.dropWhile isBlank).reverse.takeWhile isBlank).reverse, ?_,
    fun c hc => List.mem_takeWhile_imp hc,
    fun c hc => List.mem_takeWhile_imp (List.mem_reverse.mp hc)⟩
  rw [trimChars, List.append_assoc, ← List.reverse_append, List.takeWhile_append_dropWhile,
    List.reverse_reverse, List.takeWhile_append_dropWhile]

/-- Blanks in front are taken off, up to the first character that is none. -/
theorem dropWhile_blanks {before cs : List Char} (hbefore : ∀ c ∈ before, isBlank c = true)
    (hcs : ∀ c ∈ cs.head?, isBlank c = false) : (before ++ cs).dropWhile isBlank = cs := by
  rw [List.dropWhile_append_of_pos hbefore]
  cases cs with
  | nil => rfl
  | cons c cs =>
      refine List.dropWhile_cons_of_neg ?_
      rw [hcs c rfl]
      exact Bool.false_ne_true

/-- What is left of a text are the characters between the blanks, if none of
    them is a blank. -/
theorem trimChars_of_framed {before cs after : List Char}
    (hbefore : ∀ c ∈ before, isBlank c = true) (hcs : ∀ c ∈ cs, isBlank c = false)
    (hafter : ∀ c ∈ after, isBlank c = true) : trimChars (before ++ cs ++ after) = cs := by
  have hlast : ∀ c ∈ cs.reverse.head?, isBlank c = false := fun c hc =>
    hcs c (List.mem_reverse.mp (List.mem_of_mem_head? hc))
  have hends : (after.reverse ++ cs.reverse).dropWhile isBlank = cs.reverse :=
    dropWhile_blanks (fun c hc => hafter c (List.mem_reverse.mp hc)) hlast
  rw [trimChars, List.append_assoc]
  cases cs with
  | nil =>
      -- there are blanks only, and the first step takes all of them
      have hall : (before ++ ([] ++ after)).dropWhile isBlank = [] := by
        rw [List.dropWhile_eq_nil_iff]
        intro c hc
        exact (List.mem_append.mp hc).elim (hbefore c) (hafter c)
      rw [hall]
      rfl
  | cons c cs =>
      have hfirst : ∀ x ∈ (c :: cs ++ after).head?, isBlank x = false := fun x hx =>
        hcs x (by rw [← Option.some.inj hx]; exact List.mem_cons_self)
      rw [dropWhile_blanks hbefore hfirst, List.reverse_append, hends, List.reverse_reverse]

theorem trimChars_eq_nil_iff {cs : List Char} :
    trimChars cs = [] ↔ ∀ c ∈ cs, isBlank c = true := by
  constructor
  · intro h
    obtain ⟨before, after, hsplit, hbefore, hafter⟩ := trimChars_split cs
    rw [h, List.append_nil] at hsplit
    intro c hc
    rw [hsplit] at hc
    exact (List.mem_append.mp hc).elim (hbefore c) (hafter c)
  · intro h
    have hall : trimChars (cs ++ [] ++ []) = [] := trimChars_of_framed h nofun nofun
    rwa [List.append_nil, List.append_nil] at hall

/-- A text of which trimming leaves something has a character that can be seen. -/
theorem isEmpty_trim_eq_false_iff {s : String} :
    (trim s).isEmpty = false ↔ ∃ c ∈ s.toList, isBlank c = false := by
  have hempty : (trim s).isEmpty = true ↔ trimChars s.toList = [] := by
    rw [String.isEmpty_iff, trim, ← String.toList_eq_nil_iff, String.toList_ofList]
  rw [← Bool.not_eq_true, hempty, trimChars_eq_nil_iff]
  simp only [Classical.not_forall, Bool.not_eq_true, exists_prop]

end ContentVault.Text
