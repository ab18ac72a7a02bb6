import RelAlg.Expr.Nesting

set_option autoImplicit false

namespace RelAlg.Expr

variable {n : Nesting} {offset : Nat} {as bs cs : List Char} {p : Position}

theorem utf8Size_cons (c : Char) (cs : List Char) :
    utf8Size (c :: cs) = c.utf8Size + utf8Size cs :=
  rfl

theorem utf8Size_append (as bs : List Char) : utf8Size (as ++ bs) = utf8Size as + utf8Size bs := by
  induction as with
  | nil => exact (Nat.zero_add _).symm
  | cons a as ih => rw [List.cons_append, utf8Size, ih, utf8Size, Nat.add_assoc]

theorem utf8Size_eq_zero_iff : utf8Size cs = 0 ↔ cs = [] := by
  cases cs with
  | nil => exact ⟨fun _ => rfl, fun _ => rfl⟩
  | cons c cs =>
    have hpos := c.utf8Size_pos
    refine ⟨fun h => ?_, fun h => by cases h⟩
    rw [utf8Size] at h
    omega

theorem splitOffset_append (as bs : List Char) :
    splitOffset (utf8Size as) (as ++ bs) = (as, bs) := by
  induction as with
  | nil =>
    cases bs with
    | nil => rfl
    | cons b bs => exact if_pos rfl
  | cons a as ih =>
    have hpos := a.utf8Size_pos
    have hne : utf8Size (a :: as) ≠ 0 := by
      rw [utf8Size]
      omega
    rw [List.cons_append, splitOffset, if_neg hne, utf8Size, Nat.add_sub_cancel_left, ih]

theorem matchingParen?_eq {before behind : List Char} (h : cs = before ++ behind) :
    matchingParen? cs (utf8Size before) =
      (enclosed? (Nesting.start.run before) behind).map fun p =>
        utf8Size before + 1 + utf8Size p.1 := by
  rw [h, matchingParen?, splitOffset_append]

theorem getElem?_positionsFrom (offset : Nat) (n : Nesting) (cs : List Char) (i : Nat) :
    (positionsFrom offset n cs)[i]? =
      cs[i]?.map fun c => ⟨offset + utf8Size (cs.take i), c, n.run (cs.take i)⟩ := by
  induction cs generalizing offset n i with
  | nil => rfl
  | cons c cs ih =>
    cases i with
    | zero => rfl
    | succ i =>
      rw [positionsFrom, List.getElem?_cons_succ, ih, List.getElem?_cons_succ]
      simp only [List.take_succ_cons, utf8Size, Nat.add_assoc]
      rfl

theorem positionsFrom_append (offset : Nat) (n : Nesting) (as bs : List Char) :
    positionsFrom offset n (as ++ bs) =
      positionsFrom offset n as ++ positionsFrom (offset + utf8Size as) (n.run as) bs := by
  induction as generalizing offset n with
  | nil => rfl
  | cons a as ih =>
    rw [List.cons_append, positionsFrom, ih, positionsFrom, List.cons_append, utf8Size,
      Nat.add_assoc]
    rfl

theorem take_positionsFrom (i offset : Nat) (n : Nesting) (cs : List Char) :
    (positionsFrom offset n cs).take i = positionsFrom offset n (cs.take i) := by
  induction cs generalizing offset n i with
  | nil => rw [positionsFrom, List.take_nil, List.take_nil, positionsFrom]
  | cons c cs ih =>
    cases i with
    | zero => rfl
    | succ i => rw [positionsFrom, List.take_succ_cons, ih, List.take_succ_cons, positionsFrom]

theorem positionsFrom_add (k offset : Nat) (n : Nesting) (cs : List Char) :
    positionsFrom (k + offset) n cs =
      (positionsFrom offset n cs).map fun p => { p with offset := k + p.offset } := by
  induction cs generalizing offset n with
  | nil => rfl
  | cons c cs ih =>
    rw [positionsFrom, positionsFrom, List.map_cons, Nat.add_assoc, ih]

/-- A position names a character, the size of what is in front of it and the nesting there. -/
theorem mem_positionsFrom_iff : p ∈ positionsFrom offset n cs ↔ ∃ before behind,
    cs = before ++ p.char :: behind ∧ p.offset = offset + utf8Size before ∧
      p.nesting = n.run before := by
  constructor
  · intro h
    induction cs generalizing offset n with
    | nil => cases h
    | cons c cs ih =>
      obtain rfl | h := List.mem_cons.1 h
      · exact ⟨[], cs, rfl, rfl, rfl⟩
      · obtain ⟨before, behind, rfl, ho, hn⟩ := ih h
        refine ⟨c :: before, behind, rfl, ?_, hn⟩
        rw [ho, utf8Size, Nat.add_assoc]
  · rintro ⟨before, behind, rfl, ho, hn⟩
    rw [positionsFrom_append, ← ho, ← hn]
    exact List.mem_append_right _ List.mem_cons_self

theorem mem_positions_iff : p ∈ positions cs ↔ ∃ before behind,
    cs = before ++ p.char :: behind ∧ p.offset = utf8Size before ∧
      p.nesting = Nesting.start.run before := by
  simp only [positions, mem_positionsFrom_iff, Nat.zero_add]

theorem bounds_of_mem_positionsFrom (h : p ∈ positionsFrom offset n cs) :
    offset ≤ p.offset ∧ p.offset < offset + utf8Size cs := by
  obtain ⟨before, behind, rfl, ho, -⟩ := mem_positionsFrom_iff.1 h
  have hpos := p.char.utf8Size_pos
  rw [utf8Size_append, utf8Size]
  omega

theorem pairwise_positionsFrom (offset : Nat) (n : Nesting) (cs : List Char) :
    (positionsFrom offset n cs).Pairwise fun p q => p.offset < q.offset := by
  induction cs generalizing offset n with
  | nil => exact .nil
  | cons c cs ih =>
    refine List.pairwise_cons.2 ⟨fun p hp => ?_, ih _ _⟩
    have hle := (bounds_of_mem_positionsFrom hp).1
    have hpos := c.utf8Size_pos
    dsimp only
    omega

/-- An offset between two characters, or at an end of the text. -/
def Boundary (cs : List Char) (i : Nat) : Prop :=
  ∃ before behind, cs = before ++ behind ∧ utf8Size before = i

/-- What stands between two offsets, if both are boundaries and in order. -/
def slice? (cs : List Char) (start stop : Nat) : Option (List Char) :=
  let before := (splitOffset stop cs).1
  let parts := splitOffset start before
  if utf8Size before = stop ∧ utf8Size parts.1 = start then some parts.2 else none

theorem slice?_eq_some_iff {start stop : Nat} {part : List Char} :
    slice? cs start stop = some part ↔
      ∃ before behind, cs = before ++ part ++ behind ∧ utf8Size before = start ∧
        start + utf8Size part = stop := by
  constructor
  · intro h
    rw [slice?] at h
    obtain ⟨⟨hstop, hstart⟩, h⟩ := Option.ite_none_right_eq_some.1 h
    cases h
    have hparts := append_splitOffset start (splitOffset stop cs).1
    refine ⟨_, (splitOffset stop cs).2, ?_, hstart, ?_⟩
    · rw [hparts, append_splitOffset]
    · have hsize := congrArg utf8Size hparts
      rwa [utf8Size_append, hstart, hstop] at hsize
  · rintro ⟨before, behind, rfl, rfl, rfl⟩
    rw [slice?, ← utf8Size_append, splitOffset_append, splitOffset_append]
    exact if_pos ⟨rfl, rfl⟩

def CharAt (cs : List Char) (i : Nat) (c : Char) : Prop :=
  ∃ before behind, cs = before ++ c :: behind ∧ utf8Size before = i

def offsetOf? (c : Char) : List Char → Option Nat
  | [] => none
  | d :: cs => if d = c then some 0 else (offsetOf? c cs).map (d.utf8Size + ·)

theorem offsetOf?_eq_none {c : Char} (h : c ∉ cs) : offsetOf? c cs = none := by
  induction cs with
  | nil => rfl
  | cons d cs ih =>
    rw [List.mem_cons, not_or] at h
    rw [offsetOf?, if_neg (Ne.symm h.1), ih h.2]
    rfl

theorem offsetOf?_append {c : Char} {before : List Char} (h : c ∉ before) (behind : List Char) :
    offsetOf? c (before ++ c :: behind) = some (utf8Size before) := by
  induction before with
  | nil => exact if_pos rfl
  | cons d before ih =>
    rw [List.mem_cons, not_or] at h
    rw [List.cons_append, offsetOf?, if_neg (Ne.symm h.1), ih h.2]
    rfl

end RelAlg.Expr
