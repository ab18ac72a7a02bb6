import Mathlib.Data.List.TakeWhile
import RelAlg.Text.Blank

set_option autoImplicit false

namespace RelAlg.Text

variable {α : Type} {p : α → Bool} {xs ys : List α}

theorem dropWhile_of_head (h : ∀ y ∈ ys.head?, p y = false) : ys.dropWhile p = ys := by
  cases ys with
  | nil => rfl
  | cons y ys => rw [List.dropWhile_cons_of_neg (by rw [h y rfl]; exact Bool.false_ne_true)]

theorem dropWhile_span (hx : ∀ x ∈ xs, p x = true) (hy : ∀ y ∈ ys.head?, p y = false) :
    (xs ++ ys).dropWhile p = ys := by
  rw [List.dropWhile_append_of_pos hx, dropWhile_of_head hy]

theorem takeWhile_span (hx : ∀ x ∈ xs, p x = true) (hy : ∀ y ∈ ys.head?, p y = false) :
    (xs ++ ys).takeWhile p = xs := by
  have h := List.takeWhile_append_dropWhile (p := p) (l := xs ++ ys)
  rw [dropWhile_span hx hy] at h
  exact List.append_cancel_right h

theorem takeWhile_append_of_head (hy : ∀ y ∈ ys.head?, p y = false) (xs : List α) :
    (xs ++ ys).takeWhile p = xs.takeWhile p := by
  induction xs with
  | nil => exact takeWhile_span (List.forall_mem_nil _) hy
  | cons x xs ih => rw [List.cons_append, List.takeWhile_cons, List.takeWhile_cons, ih]

theorem dropWhile_append_of_head (hy : ∀ y ∈ ys.head?, p y = false) (xs : List α) :
    (xs ++ ys).dropWhile p = xs.dropWhile p ++ ys := by
  induction xs with
  | nil => exact dropWhile_of_head hy
  | cons x xs ih =>
    rw [List.cons_append, List.dropWhile_cons, List.dropWhile_cons, ih]
    split <;> rfl

theorem any_head_append (hy : ∀ y ∈ ys.head?, p y = false) (xs : List α) :
    (xs ++ ys).head?.any p = xs.head?.any p := by
  cases xs with
  | nil => exact (Option.any_eq_false p _).2 hy
  | cons x xs => rfl

theorem head_dropWhile (xs : List α) : ∀ y ∈ (xs.dropWhile p).head?, p y = false := by
  intro y hy
  have h := List.head?_dropWhile_not p xs
  rw [Option.mem_def.1 hy] at h
  exact h

theorem forall_bne {c : Char} {part : List Char} (h : c ∉ part) : ∀ d ∈ part, (d != c) = true := by
  intro d hd
  rw [bne_iff_ne]
  rintro rfl
  exact h hd

/-- What is dropped up to a character ends before its first occurrence. -/
theorem cut_at {c d : Char} {cs ds : List Char} (h : cs.dropWhile (· != c) = d :: ds) :
    d = c ∧ c ∉ cs.takeWhile (· != c) ∧ cs.takeWhile (· != c) ++ c :: ds = cs := by
  have hd := head_dropWhile (p := (· != c)) cs d (by rw [h]; rfl)
  obtain rfl : d = c := by simpa using hd
  have ht := List.takeWhile_append_dropWhile (p := (· != d)) (l := cs)
  rw [h] at ht
  exact ⟨rfl, fun hm => by simpa using List.mem_takeWhile_imp hm, ht⟩

theorem trim_eq_self_iff {cs : List Char} :
    trim cs = cs ↔
      (∀ c ∈ cs.head?, isBlank c = false) ∧ ∀ c ∈ cs.getLast?, isBlank c = false := by
  constructor
  · intro h
    have hle : cs.length ≤ (trimStart cs).length := by
      rw [← congrArg List.length h]
      exact length_trimEnd_le _
    have hs : trimStart cs = cs :=
      (List.dropWhile_suffix isBlank).eq_of_length_le hle
    rw [trim, hs, trimEnd] at h
    have he : cs.reverse.dropWhile isBlank = cs.reverse := by
      rw [← List.reverse_inj, h, List.reverse_reverse]
    refine ⟨?_, ?_⟩
    · rw [← hs]
      exact head_dropWhile cs
    · rw [← List.head?_reverse, ← he]
      exact head_dropWhile cs.reverse
  · rintro ⟨hh, hl⟩
    rw [← List.head?_reverse] at hl
    rw [trim, trimStart, dropWhile_of_head hh, trimEnd, dropWhile_of_head hl, List.reverse_reverse]

theorem trim_trim (cs : List Char) : trim (trim cs) = trim cs := by
  refine trim_eq_self_iff.2 ⟨fun c hc => ?_, fun c hc => ?_⟩
  · have hp : trim cs <+: trimStart cs := by
      rw [trim, trimEnd, ← List.reverse_suffix, List.reverse_reverse]
      exact List.dropWhile_suffix isBlank
    refine head_dropWhile cs c ?_
    obtain ⟨ds, hd⟩ := hp
    rw [trimStart] at hd
    rw [← hd, List.head?_append, Option.mem_def.1 hc]
    rfl
  · rw [trim, trimEnd, List.getLast?_reverse] at hc
    exact head_dropWhile _ c hc

/-- What a trim takes away at either end are blanks. -/
theorem exists_trim (cs : List Char) : ∃ trailing,
    cs.takeWhile isBlank ++ trim cs ++ trailing = cs ∧ ∀ c ∈ trailing, isBlank c = true := by
  refine ⟨((trimStart cs).reverse.takeWhile isBlank).reverse, ?_, fun c hc => ?_⟩
  · rw [List.append_assoc, trim, trimEnd, ← List.reverse_append, List.takeWhile_append_dropWhile,
      List.reverse_reverse, trimStart, List.takeWhile_append_dropWhile]
  · exact List.mem_takeWhile_imp (List.mem_reverse.1 hc)

theorem mem_of_mem_trim {c : Char} {cs : List Char} (h : c ∈ trim cs) : c ∈ cs := by
  obtain ⟨trailing, he, -⟩ := exists_trim cs
  rw [← he]
  exact List.mem_append_left _ (List.mem_append_right _ h)

theorem mem_trim {c : Char} {cs : List Char} (hc : c ∈ cs) (hb : isBlank c = false) :
    c ∈ trim cs := by
  obtain ⟨trailing, he, ht⟩ := exists_trim cs
  rw [← he, List.mem_append, List.mem_append] at hc
  rcases hc with (hc | hc) | hc
  · have h := List.mem_takeWhile_imp hc
    rw [hb] at h
    cases h
  · exact hc
  · rw [ht c hc] at hb
    cases hb

theorem isBlank_of_trim_eq_nil {cs : List Char} (h : trim cs = []) :
    ∀ c ∈ cs, isBlank c = true := by
  intro c hc
  by_contra hb
  have hm := mem_trim hc (Bool.eq_false_iff.2 hb)
  rw [h] at hm
  cases hm

/-- Text without outer blanks, and some. -/
def Framed (cs : List Char) : Prop :=
  cs ≠ [] ∧ trim cs = cs

theorem Framed.not_isEmpty {cs : List Char} (h : Framed cs) : ¬cs.isEmpty = true :=
  fun he => h.1 (List.isEmpty_iff.1 he)

theorem framed_append {as bs : List Char} (ha : Framed as) (hb : Framed bs) (cs : List Char) :
    Framed (as ++ cs ++ bs) := by
  obtain ⟨hne, ha⟩ := ha
  obtain ⟨hne', hb⟩ := hb
  refine ⟨by simp [hne], trim_eq_self_iff.2 ⟨?_, ?_⟩⟩
  · rw [List.append_assoc, List.head?_append, List.head?_eq_some_head hne, Option.some_or,
      ← List.head?_eq_some_head hne]
    exact (trim_eq_self_iff.1 ha).1
  · rw [List.getLast?_append, List.getLast?_eq_some_getLast hne', Option.some_or,
      ← List.getLast?_eq_some_getLast hne']
    exact (trim_eq_self_iff.1 hb).2

theorem prefix_trim {as cs : List Char} (ha : Framed as) (h : as <+: cs) : as <+: trim cs := by
  obtain ⟨hne, hf⟩ := ha
  obtain ⟨hh, hl⟩ := trim_eq_self_iff.1 hf
  obtain ⟨trailing, he, ht⟩ := exists_trim cs
  have hlead : cs.takeWhile isBlank = [] := by
    obtain ⟨c, as, rfl⟩ := List.exists_cons_of_ne_nil hne
    obtain ⟨rest, rfl⟩ := h
    exact List.takeWhile_cons_of_neg (by simp [hh c rfl])
  rw [hlead, List.nil_append] at he
  obtain hp | ⟨mid, hm⟩ := List.prefix_or_prefix_of_prefix h ⟨trailing, he⟩
  · exact hp
  · obtain ⟨rest, hr⟩ := h
    have hr : mid ++ rest = trailing := by
      rw [← hm, List.append_assoc] at hr
      exact List.append_cancel_left (hr.trans he.symm)
    rcases List.eq_nil_or_concat mid with rfl | ⟨mid, d, rfl⟩
    · rw [List.append_nil] at hm
      exact hm ▸ List.prefix_refl _
    · have hd : isBlank d = false := hl d (by simp [← hm])
      rw [ht d (by simp [← hr])] at hd
      cases hd

theorem framed_singleton {c : Char} (h : isBlank c = false) : Framed [c] := by
  refine ⟨List.cons_ne_nil c [], trim_eq_self_iff.2 ⟨fun d hd => ?_, fun d hd => ?_⟩⟩
  · cases hd
    exact h
  · cases hd
    exact h

end RelAlg.Text
