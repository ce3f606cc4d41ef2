import Coercion.Text.Bytes
import Mathlib.Data.List.Basic

namespace Coercion.Text

@[simp] theorem byteLength_append (a t : Text) :
    byteLength (a ++ t) = byteLength a + byteLength t := by
  induction a with
  | nil => simp [byteLength]
  | cons c a ih => simp [byteLength, ih, Nat.add_assoc]

theorem length_le_byteLength (t : Text) : t.length ≤ byteLength t := by
  induction t with
  | nil => simp [byteLength]
  | cons c t ih =>
    have := c.utf8Size_pos
    simp only [List.length_cons, byteLength]
    omega

@[simp] theorem dropBytes?_zero (t : Text) : dropBytes? 0 t = some t := by
  cases t <;> rfl

@[simp] theorem takeBytes?_zero (t : Text) : takeBytes? 0 t = some [] := by
  cases t <;> rfl

theorem dropBytes?_append (a t : Text) (n : Nat) :
    dropBytes? (byteLength a + n) (a ++ t) = dropBytes? n t := by
  induction a with
  | nil => simp [byteLength]
  | cons c a ih =>
    obtain ⟨k, hk⟩ := Nat.exists_eq_add_one.mpr c.utf8Size_pos
    have hlen : byteLength (c :: a) + n = k + byteLength a + n + 1 := by
      simp only [byteLength, hk]
      omega
    have hrest : k + byteLength a + n + 1 - c.utf8Size = byteLength a + n := by omega
    rw [hlen, List.cons_append, dropBytes?, if_pos (by omega), hrest, ih]

theorem takeBytes?_append (a t : Text) (n : Nat) :
    takeBytes? (byteLength a + n) (a ++ t) = (takeBytes? n t).map (a ++ ·) := by
  induction a with
  | nil => simp [byteLength]
  | cons c a ih =>
    obtain ⟨k, hk⟩ := Nat.exists_eq_add_one.mpr c.utf8Size_pos
    have hlen : byteLength (c :: a) + n = k + byteLength a + n + 1 := by
      simp only [byteLength, hk]
      omega
    have hrest : k + byteLength a + n + 1 - c.utf8Size = byteLength a + n := by omega
    rw [hlen, List.cons_append, takeBytes?, if_pos (by omega), hrest, ih, Option.map_map]
    rfl

/-- What follows a cut is the end of the text, from the position of the cut on unless the text is
shorter. -/
theorem eq_append_of_dropBytes? {n : Nat} {t u : Text} (h : dropBytes? n t = some u) :
    ∃ a, t = a ++ u ∧ (byteLength a = n ∨ u = [] ∧ byteLength a < n) := by
  induction t generalizing n with
  | nil =>
    cases n with
    | zero => exact ⟨[], by simpa using h, .inl rfl⟩
    | succ n =>
      obtain rfl : [] = u := Option.some.inj h
      exact ⟨[], rfl, .inr ⟨rfl, Nat.succ_pos n⟩⟩
  | cons c t ih =>
    cases n with
    | zero => exact ⟨[], by simpa using h, .inl rfl⟩
    | succ n =>
      rw [dropBytes?] at h
      split_ifs at h with hc
      obtain ⟨a, rfl, ha⟩ := ih h
      refine ⟨c :: a, rfl, ha.imp (fun h => ?_) fun h => ⟨h.1, ?_⟩⟩
      all_goals
        simp only [byteLength]
        omega

theorem eq_append_of_takeBytes? {n : Nat} {t a : Text} (h : takeBytes? n t = some a) :
    ∃ u, t = a ++ u ∧ (byteLength a = n ∨ u = [] ∧ byteLength a < n) := by
  induction t generalizing n a with
  | nil =>
    cases n with
    | zero => exact ⟨[], by simpa using h.symm, .inl (by simp_all [byteLength])⟩
    | succ n =>
      obtain rfl : [] = a := Option.some.inj h
      exact ⟨[], rfl, .inr ⟨rfl, Nat.succ_pos n⟩⟩
  | cons c t ih =>
    cases n with
    | zero =>
      obtain rfl : [] = a := by simpa using h
      exact ⟨c :: t, rfl, .inl rfl⟩
    | succ n =>
      rw [takeBytes?] at h
      split_ifs at h with hc
      obtain ⟨b, hb, rfl⟩ := Option.map_eq_some_iff.mp h
      obtain ⟨u, rfl, hu⟩ := ih hb
      refine ⟨u, rfl, hu.imp (fun h => ?_) fun h => ⟨h.1, ?_⟩⟩
      all_goals
        simp only [byteLength]
        omega

section

variable {a : Text} {n : Nat} (t : Text) (h : byteLength a = n)

include h

theorem slice_append (i j : Nat) : slice (n + i) (n + j) (a ++ t) = slice i j t := by
  subst h
  rw [slice, dropBytes?_append, Nat.add_sub_add_left]
  rfl

theorem slice_append_left : slice 0 n (a ++ t) = a := by
  subst h
  have := takeBytes?_append a t 0
  simp_all [slice]

theorem sliceFrom_append (i : Nat) : sliceFrom (n + i) (a ++ t) = sliceFrom i t := by
  subst h
  rw [sliceFrom, dropBytes?_append]
  rfl

theorem hasAt_append (i : Nat) (c : Char) : hasAt (n + i) c (a ++ t) = hasAt i c t := by
  subst h
  rw [hasAt, dropBytes?_append]
  rfl

end

@[simp] theorem hasAt_zero (c d : Char) (t : Text) : hasAt 0 c (d :: t) = (d == c) := by
  simp [hasAt]

@[simp] theorem sliceFrom_zero (t : Text) : sliceFrom 0 t = t := by
  simp [sliceFrom]

theorem hasAt_iff {n : Nat} {c : Char} {t : Text} :
    hasAt n c t = true ↔ ∃ a u, t = a ++ c :: u ∧ byteLength a = n := by
  constructor
  · intro h
    unfold hasAt at h
    cases hv : dropBytes? n t with
    | none => simp [hv] at h
    | some v =>
      rw [hv] at h
      obtain ⟨a, rfl, ha⟩ := eq_append_of_dropBytes? hv
      cases v with
      | nil => simp at h
      | cons d u =>
        obtain rfl : d = c := by simpa using h
        exact ⟨a, u, rfl, ha.resolve_right (by simp)⟩
  · rintro ⟨a, u, rfl, rfl⟩
    simpa using hasAt_append (a := a) (c :: u) rfl 0 c

/-- What is between two positions is a part of the text that starts at the first one, and ends at
the second one unless the text is shorter. -/
theorem eq_append_of_slice_ne_nil {i j : Nat} {t : Text} (h : slice i j t ≠ []) :
    ∃ a u, t = a ++ slice i j t ++ u ∧ byteLength a = i ∧
      (byteLength (slice i j t) = j - i ∨ u = [] ∧ byteLength (slice i j t) < j - i) := by
  unfold slice at h ⊢
  cases hv : dropBytes? i t with
  | none => simp [hv] at h
  | some v =>
    cases hw : takeBytes? (j - i) v with
    | none => simp [hv, hw] at h
    | some w =>
      obtain ⟨a, rfl, ha⟩ := eq_append_of_dropBytes? hv
      obtain ⟨u, rfl, hu⟩ := eq_append_of_takeBytes? hw
      have hne : w ++ u ≠ [] := by
        intro he
        simp_all
      exact ⟨a, u, by simp [hw], ha.resolve_right (by simp_all), by simpa [hv, hw] using hu⟩

theorem byteLength_slice_le (i j : Nat) (t : Text) : byteLength (slice i j t) ≤ j - i := by
  by_cases h : slice i j t = []
  · rw [h]
    exact Nat.zero_le _
  · obtain ⟨_, _, -, -, hlen | ⟨-, hlen⟩⟩ := eq_append_of_slice_ne_nil h
    · exact Nat.le_of_eq hlen
    · exact Nat.le_of_lt hlen

theorem mem_of_mem_slice {c : Char} {i j : Nat} {t : Text} (h : c ∈ slice i j t) : c ∈ t := by
  obtain ⟨a, u, ht, -⟩ := eq_append_of_slice_ne_nil (List.ne_nil_of_mem h)
  rw [ht]
  simp [h]

theorem mem_of_mem_sliceFrom {c : Char} {n : Nat} {t : Text} (h : c ∈ sliceFrom n t) : c ∈ t := by
  unfold sliceFrom at h
  cases hu : dropBytes? n t with
  | none => simp [hu] at h
  | some u =>
    obtain ⟨a, rfl, -⟩ := eq_append_of_dropBytes? hu
    rw [hu] at h
    exact List.mem_append_right a h

/-- A position inside a character cuts nothing off a text, and any other one cuts it in two. -/
theorem takeBytes?_dropBytes? (n : Nat) (t : Text) :
    takeBytes? n t = none ∧ dropBytes? n t = none ∨
      ∃ a u, takeBytes? n t = some a ∧ dropBytes? n t = some u ∧ a ++ u = t := by
  induction t generalizing n with
  | nil => cases n <;> exact .inr ⟨[], [], rfl, rfl, rfl⟩
  | cons c t ih =>
    cases n with
    | zero => exact .inr ⟨[], c :: t, rfl, rfl, rfl⟩
    | succ n =>
      rw [takeBytes?, dropBytes?]
      split_ifs
      · obtain ⟨ha, hu⟩ | ⟨a, u, ha, hu, rfl⟩ := ih (n + 1 - c.utf8Size)
        · exact .inl ⟨by rw [ha, Option.map_none], hu⟩
        · exact .inr ⟨c :: a, u, by rw [ha, Option.map_some], hu, rfl⟩
      · exact .inl ⟨rfl, rfl⟩

theorem slice_append_sliceFrom (n : Nat) (t : Text) :
    slice 0 n t ++ sliceFrom n t = t ∨ slice 0 n t = [] ∧ sliceFrom n t = [] := by
  simp only [slice, sliceFrom, dropBytes?_zero, Option.bind_some, Nat.sub_zero]
  obtain ⟨ha, hu⟩ | ⟨a, u, ha, hu, rfl⟩ := takeBytes?_dropBytes? n t
  · simp [ha, hu]
  · simp [ha, hu]

theorem sliceFrom_of_byteLength_le {n : Nat} {t : Text} (h : byteLength t ≤ n) :
    sliceFrom n t = [] := by
  unfold sliceFrom
  cases hu : dropBytes? n t with
  | none => rfl
  | some u =>
    obtain ⟨a, rfl, ha | ⟨rfl, -⟩⟩ := eq_append_of_dropBytes? hu
    · have hlen := length_le_byteLength u
      rw [byteLength_append] at h
      rw [Option.getD_some]
      exact List.length_eq_zero_iff.mp (by omega)
    · rfl

theorem sliceFrom_eq_nil {n : Nat} {t : Text} (hn : 0 < n) (h : slice 0 n t = []) :
    sliceFrom n t = [] := by
  simp only [slice, sliceFrom, dropBytes?_zero, Option.bind_some, Nat.sub_zero] at h ⊢
  obtain ⟨-, hu⟩ | ⟨a, u, ha, hu, rfl⟩ := takeBytes?_dropBytes? n t
  · rw [hu]
    rfl
  · obtain rfl : a = [] := by rwa [ha, Option.getD_some] at h
    obtain ⟨v, hv, hlen⟩ := eq_append_of_takeBytes? ha
    rw [hu, Option.getD_some, ← List.nil_append u, hv, List.nil_append]
    exact (hlen.resolve_left fun hzero => by simp [byteLength] at hzero; omega).1

/-- A position in a text cuts it in two, or all cuts there are empty. -/
theorem cut_cases {n : Nat} {t : Text} (hn : n ≤ byteLength t) :
    (∃ a u, t = a ++ u ∧ byteLength a = n) ∨
      slice 0 n t = [] ∧ (∀ j, slice n j t = []) ∧ sliceFrom n t = [] := by
  obtain ⟨ha, hu⟩ | ⟨-, u, -, hu, -⟩ := takeBytes?_dropBytes? n t
  · exact .inr (by simp [slice, sliceFrom, ha, hu])
  · obtain ⟨a, rfl, ha | ⟨rfl, ha⟩⟩ := eq_append_of_dropBytes? hu
    · exact .inl ⟨a, u, rfl, ha⟩
    · rw [List.append_nil] at hn
      omega

theorem exists_append_of_byteLength_le {a t b u : Text} (h : a ++ t = b ++ u)
    (hle : byteLength a ≤ byteLength b) : ∃ e, b = a ++ e ∧ t = e ++ u := by
  obtain ⟨e, rfl, rfl⟩ | ⟨e, rfl, rfl⟩ := List.append_eq_append_iff.mp h
  · exact ⟨e, rfl, rfl⟩
  · have hlen := length_le_byteLength e
    rw [byteLength_append] at hle
    obtain rfl : e = [] := List.length_eq_zero_iff.mp (by omega)
    exact ⟨[], by simp, by simp⟩

/-- A cut reaches as far into what follows a part as it would without it. -/
theorem slice_append_of_ne_nil {a t : Text} {n k : Nat} (ha : byteLength a = n)
    (h : slice 0 k t ≠ []) : slice 0 (n + k) (a ++ t) = a ++ slice 0 k t := by
  subst ha
  simp only [slice, dropBytes?_zero, Option.bind_some, Nat.sub_zero, takeBytes?_append] at h ⊢
  cases ht : takeBytes? k t with
  | none => simp [ht] at h
  | some w => rfl

/-- Two marks of one byte in a text. -/
theorem exists_marks {n k : Nat} {c d : Char} {t : Text} (hc : c.utf8Size = 1)
    (h : hasAt n c t = true) (h' : hasAt (n + 1 + k) d t = true) :
    ∃ a x y, t = a ++ c :: (x ++ d :: y) ∧ byteLength a = n ∧ byteLength x = k := by
  obtain ⟨a, u, rfl, ha⟩ := hasAt_iff.mp h
  have hmark : byteLength (a ++ [c]) = n + 1 := by simp [byteLength, ha, hc]
  have hcut := hasAt_append u hmark k d
  rw [List.append_assoc, List.singleton_append, h'] at hcut
  obtain ⟨x, y, rfl, hx⟩ := hasAt_iff.mp hcut.symm
  exact ⟨a, x, y, rfl, ha, hx⟩

section

variable {a x : Text} {c d : Char} {n k : Nat} (ha : byteLength a = n) (hx : byteLength x = k)
  (hc : c.utf8Size = 1) (hd : d.utf8Size = 1) (y : Text)

include ha hx hc

theorem slice_between : slice (n + 1) (n + 1 + k) (a ++ c :: (x ++ d :: y)) = x := by
  have hmark : byteLength (a ++ [c]) = n + 1 := by simp [byteLength, ha, hc]
  have hcut := slice_append (x ++ d :: y) hmark 0 k
  rw [List.append_assoc, List.singleton_append, slice_append_left _ hx] at hcut
  exact hcut

include hd

theorem byteLength_marks : byteLength (a ++ c :: (x ++ [d])) = n + k + 2 := by
  simp only [byteLength_append, byteLength, ha, hx, hc, hd]
  omega

theorem slice_behind (i j : Nat) :
    slice (n + k + 2 + i) (n + k + 2 + j) (a ++ c :: (x ++ d :: y)) = slice i j y := by
  have hcut := slice_append y (byteLength_marks ha hx hc hd) i j
  rwa [show a ++ c :: (x ++ [d]) ++ y = a ++ c :: (x ++ d :: y) by simp] at hcut

theorem slice_marks_append {j : Nat} (hy : slice 0 j y ≠ []) :
    slice 0 (n + k + 2 + j) (a ++ c :: (x ++ d :: y)) = a ++ c :: (x ++ d :: slice 0 j y) := by
  have hcut := slice_append_of_ne_nil (byteLength_marks ha hx hc hd) hy
  simpa using hcut

theorem slice_marks : slice 0 (n + k + 2) (a ++ c :: (x ++ d :: y)) = a ++ c :: (x ++ [d]) := by
  have hcut := slice_append_left y (byteLength_marks ha hx hc hd)
  rwa [show a ++ c :: (x ++ [d]) ++ y = a ++ c :: (x ++ d :: y) by simp] at hcut

theorem sliceFrom_behind (i : Nat) :
    sliceFrom (n + k + 2 + i) (a ++ c :: (x ++ d :: y)) = sliceFrom i y := by
  have hcut := sliceFrom_append y (byteLength_marks ha hx hc hd) i
  rwa [show a ++ c :: (x ++ [d]) ++ y = a ++ c :: (x ++ d :: y) by simp] at hcut

end

/-- Only characters of one byte. -/
def IsAscii (t : Text) : Prop := ∀ c ∈ t, c.utf8Size = 1

@[simp] theorem isAscii_nil : IsAscii [] := by simp [IsAscii]

@[simp] theorem isAscii_cons {c : Char} {t : Text} :
    IsAscii (c :: t) ↔ c.utf8Size = 1 ∧ IsAscii t := by
  simp [IsAscii]

@[simp] theorem isAscii_append {a t : Text} : IsAscii (a ++ t) ↔ IsAscii a ∧ IsAscii t := by
  simp [IsAscii, or_imp, forall_and]

namespace IsAscii

variable {t : Text} (h : IsAscii t)

include h

theorem byteLength_eq : byteLength t = t.length := by
  induction t with
  | nil => rfl
  | cons c t ih =>
    obtain ⟨hc, ht⟩ := isAscii_cons.mp h
    rw [byteLength, ih ht, hc, List.length_cons, Nat.add_comm]

theorem dropBytes?_eq (n : Nat) : dropBytes? n t = some (t.drop n) := by
  induction t generalizing n with
  | nil => cases n <;> simp [dropBytes?]
  | cons c t ih =>
    obtain ⟨hc, ht⟩ := isAscii_cons.mp h
    cases n with
    | zero => simp
    | succ n => simp [dropBytes?, hc, ih ht]

theorem takeBytes?_eq (n : Nat) : takeBytes? n t = some (t.take n) := by
  induction t generalizing n with
  | nil => cases n <;> simp [takeBytes?]
  | cons c t ih =>
    obtain ⟨hc, ht⟩ := isAscii_cons.mp h
    cases n with
    | zero => simp
    | succ n => simp [takeBytes?, hc, ih ht]

theorem drop (n : Nat) : IsAscii (t.drop n) :=
  fun c hc => h c (List.mem_of_mem_drop hc)

theorem slice_eq (i j : Nat) : slice i j t = (t.drop i).take (j - i) := by
  simp [slice, h.dropBytes?_eq, (h.drop i).takeBytes?_eq]

theorem sliceFrom_eq (i : Nat) : sliceFrom i t = t.drop i := by
  simp [sliceFrom, h.dropBytes?_eq]

theorem hasAt_eq (i : Nat) (c : Char) : hasAt i c t = (t[i]? == some c) := by
  simp [hasAt, h.dropBytes?_eq]

end IsAscii

end Coercion.Text
