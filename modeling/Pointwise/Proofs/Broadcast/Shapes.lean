import Pointwise.Broadcast

/-!
# Common shapes

The shape that several shapes are broadcast to is the least one that all of them stretch to.
-/

namespace Pointwise.Broadcast

/-- The length of an axis counted from the last one, which is 1 where there is no axis. -/
def dim (shape : List Nat) (k : Nat) : Nat := shape.reverse.getD k 1

/-- An axis of one length can stand for an axis of the other. -/
def Stretches (m d : Nat) : Prop := m = 1 ∨ m = d

/-- The common shape of several shapes, of which nothing is longer than it has to be. -/
structure IsJoin (ss : List (List Nat)) (out : List Nat) : Prop where
  length_le : ∀ s ∈ ss, s.length ≤ out.length
  rank : out = [] ∨ ∃ s ∈ ss, s.length = out.length
  stretches : ∀ s ∈ ss, ∀ k, Stretches (dim s k) (dim out k)
  attained : ∀ k, dim out k = 1 ∨ ∃ s ∈ ss, dim s k = dim out k

/-! ## Lengths from the last axis -/

theorem dim_nil (k : Nat) : dim [] k = 1 := by simp [dim]

theorem dim_of_length_le {s : List Nat} {k : Nat} (h : s.length ≤ k) : dim s k = 1 := by
  unfold dim
  rw [List.getD_eq_getElem?_getD, List.getElem?_eq_none (by simpa using h)]
  rfl

theorem dim_eq_getElem {s : List Nat} {k : Nat} (hk : k < s.length) :
    dim s (s.length - 1 - k) = s[k] := by
  unfold dim
  rw [List.getD_eq_getElem?_getD, List.getElem?_reverse (by omega),
    show s.length - 1 - (s.length - 1 - k) = k by omega, List.getElem?_eq_getElem hk]
  rfl

theorem dim_cons (d : Nat) (ds : List Nat) (k : Nat) :
    dim (d :: ds) k = if k = ds.length then d else dim ds k := by
  unfold dim
  rw [List.reverse_cons, List.getD_eq_getElem?_getD, List.getD_eq_getElem?_getD]
  rcases Nat.lt_trichotomy k ds.length with h | h | h
  · rw [if_neg (Nat.ne_of_lt h), List.getElem?_append_left (by simpa using h)]
  · rw [if_pos h, List.getElem?_append_right (by simp [h])]
    simp [h]
  · rw [if_neg (Nat.ne_of_gt h), List.getElem?_eq_none (by simp; omega),
      List.getElem?_eq_none (by simp; omega)]

theorem dim_cons_length (d : Nat) (ds : List Nat) : dim (d :: ds) ds.length = d := by
  rw [dim_cons, if_pos rfl]

theorem dim_cons_of_ne {d : Nat} {ds : List Nat} {k : Nat} (h : k ≠ ds.length) :
    dim (d :: ds) k = dim ds k := by
  rw [dim_cons, if_neg h]

theorem dim_one_cons (s : List Nat) (k : Nat) : dim (1 :: s) k = dim s k := by
  rw [dim_cons]
  split
  next h => exact (dim_of_length_le (Nat.le_of_eq h.symm)).symm
  next => rfl

theorem dim_replicate (n k : Nat) : dim (List.replicate n 1) k = 1 := by
  induction n with
  | zero => exact dim_nil k
  | succ n ih => rw [List.replicate_succ, dim_one_cons, ih]

theorem dim_pad (n : Nat) (s : List Nat) (k : Nat) : dim (pad n s) k = dim s k := by
  unfold pad
  induction n - s.length with
  | zero => rfl
  | succ m ih => rw [List.replicate_succ, List.cons_append, dim_one_cons, ih]

theorem length_pad {n : Nat} {s : List Nat} (h : s.length ≤ n) : (pad n s).length = n := by
  unfold pad
  rw [List.length_append, List.length_replicate]
  omega

theorem forall_dim_cons {R : Nat → Nat → Prop} (hone : R 1 1) {d e : Nat} {ds es : List Nat}
    (hlen : ds.length = es.length) (h : ∀ k, R (dim (d :: ds) k) (dim (e :: es) k)) :
    R d e ∧ ∀ k, R (dim ds k) (dim es k) := by
  constructor
  · have hhead := h ds.length
    rwa [dim_cons_length, hlen, dim_cons_length] at hhead
  · intro k
    by_cases hk : k = ds.length
    · rwa [dim_of_length_le (Nat.le_of_eq hk.symm), dim_of_length_le (by omega)]
    · have htail := h k
      rwa [dim_cons_of_ne hk, dim_cons_of_ne (hlen ▸ hk)] at htail

theorem eq_of_dim {s t : List Nat} (hlen : s.length = t.length) (h : ∀ k, dim s k = dim t k) :
    s = t := by
  induction s generalizing t with
  | nil => exact (List.eq_nil_of_length_eq_zero hlen.symm).symm
  | cons d ds ih =>
    cases t with
    | nil => cases hlen
    | cons e es =>
      have hlen' : ds.length = es.length := Nat.succ.inj hlen
      obtain ⟨hhead, htail⟩ := forall_dim_cons rfl hlen' h
      rw [hhead, ih hlen' htail]

/-! ## Two shapes of one rank -/

theorem join?_eq_some {m n d : Nat} :
    join? m n = some d ↔ Stretches m d ∧ Stretches n d ∧ (d = m ∨ d = n) := by
  unfold join? Stretches
  split
  next h =>
    rw [Option.some.injEq]
    omega
  next h =>
    split
    next h' =>
      rw [Option.some.injEq]
      omega
    next h' =>
      constructor
      · rintro ⟨⟩
      · omega

theorem joinShapes?_eq_some {ms ns d : List Nat} (hlen : ms.length = ns.length)
    (h : joinShapes? ms ns = some d) :
    d.length = ms.length ∧ ∀ k, join? (dim ms k) (dim ns k) = some (dim d k) := by
  induction ms generalizing ns d with
  | nil =>
    cases h
    rw [List.eq_nil_of_length_eq_zero hlen.symm]
    exact ⟨rfl, fun k => by rw [dim_nil, join?_one_left]⟩
  | cons m ms ih =>
    cases ns with
    | nil => cases hlen
    | cons n ns =>
      have hlen' : ms.length = ns.length := Nat.succ.inj hlen
      simp only [joinShapes?, Option.bind_eq_bind, Option.bind_eq_some_iff, Option.some.injEq] at h
      obtain ⟨e, he, es, hes, rfl⟩ := h
      obtain ⟨hlen'', hdim⟩ := ih hlen' hes
      refine ⟨by rw [List.length_cons, List.length_cons, hlen''], fun k => ?_⟩
      rw [dim_cons, dim_cons, dim_cons, ← hlen', hlen'']
      split
      · exact he
      · exact hdim k

theorem joinShapes?_of_bound {ms ns e : List Nat} (hlen : ms.length = ns.length)
    (hm : ∀ k, Stretches (dim ms k) (dim e k)) (hn : ∀ k, Stretches (dim ns k) (dim e k)) :
    ∃ d, joinShapes? ms ns = some d := by
  have hjoin : ∀ k, ∃ d, join? (dim ms k) (dim ns k) = some d := by
    intro k
    have hmk := hm k
    have hnk := hn k
    unfold Stretches at hmk hnk
    unfold join?
    split
    · exact ⟨_, rfl⟩
    · rw [if_pos (by omega)]
      exact ⟨_, rfl⟩
  clear hm hn
  induction ms generalizing ns with
  | nil => exact ⟨[], rfl⟩
  | cons m ms ih =>
    cases ns with
    | nil => cases hlen
    | cons n ns =>
      have hlen' : ms.length = ns.length := Nat.succ.inj hlen
      have hone : ∃ d, join? 1 1 = some d := ⟨1, rfl⟩
      obtain ⟨⟨d, hd⟩, hrest⟩ :=
        forall_dim_cons (R := fun m n => ∃ d, join? m n = some d) hone hlen' hjoin
      obtain ⟨ds, hds⟩ := ih hlen' hrest
      exact ⟨d :: ds, by rw [joinShapes?, hd, hds]; rfl⟩

/-! ## Several shapes -/

theorem foldl_max_spec (m : Nat) (l : List Nat) :
    m ≤ l.foldl max m ∧ (∀ n ∈ l, n ≤ l.foldl max m) ∧ (l.foldl max m = m ∨ l.foldl max m ∈ l) := by
  induction l generalizing m with
  | nil => simp
  | cons n l ih =>
    obtain ⟨hle, hmem, hmax⟩ := ih (max m n)
    rw [List.foldl_cons]
    refine ⟨by omega, ?_, ?_⟩
    · rintro x (_ | ⟨_, hx⟩)
      · omega
      · exact hmem x hx
    · rcases hmax with hmax | hmax
      · rcases Nat.le_total m n with h | h
        · exact .inr (by rw [hmax, Nat.max_eq_right h]; exact .head _)
        · exact .inl (by rw [hmax, Nat.max_eq_left h])
      · exact .inr (.tail _ hmax)

/-- The rank of the common shape. -/
def maxRank (ss : List (List Nat)) : Nat := (ss.map List.length).foldl max 0

theorem length_le_maxRank {ss : List (List Nat)} {s : List Nat} (hs : s ∈ ss) :
    s.length ≤ maxRank ss :=
  (foldl_max_spec 0 _).2.1 _ (List.mem_map_of_mem hs)

theorem maxRank_attained (ss : List (List Nat)) :
    maxRank ss = 0 ∨ ∃ s ∈ ss, s.length = maxRank ss :=
  (foldl_max_spec 0 (ss.map List.length)).2.2.imp_right List.mem_map.1

theorem shapes_eq (ss : List (List Nat)) :
    shapes ss =
      match ss.foldlM (fun out s => joinShapes? out (pad (maxRank ss) s))
        (List.replicate (maxRank ss) 1) with
      | some out => .ok out
      | none => .error (.broadcast (.shapes ss)) := rfl

theorem foldlM_joinShapes? {n : Nat} {ss : List (List Nat)} {init out : List Nat}
    (hn : ∀ s ∈ ss, s.length ≤ n) (hinit : init.length = n)
    (h : ss.foldlM (fun out s => joinShapes? out (pad n s)) init = some out) :
    out.length = n ∧ (∀ k, Stretches (dim init k) (dim out k)) ∧
      (∀ s ∈ ss, ∀ k, Stretches (dim s k) (dim out k)) ∧
      ∀ k, dim out k = dim init k ∨ ∃ s ∈ ss, dim s k = dim out k := by
  induction ss generalizing init with
  | nil =>
    cases h
    exact ⟨hinit, fun k => .inr rfl, by simp, fun k => .inl rfl⟩
  | cons s ss ih =>
    rw [List.foldlM_cons, Option.bind_eq_bind, Option.bind_eq_some_iff] at h
    obtain ⟨mid, hmid, h⟩ := h
    have hpad := length_pad (hn s (.head _))
    obtain ⟨hlen, hdim⟩ := joinShapes?_eq_some (hinit.trans hpad.symm) hmid
    obtain ⟨hout, hstretch, hall, hattained⟩ :=
      ih (fun t ht => hn t (.tail _ ht)) (hlen.trans hinit) h
    have hjoin : ∀ k, Stretches (dim init k) (dim mid k) ∧ Stretches (dim s k) (dim mid k) ∧
        (dim mid k = dim init k ∨ dim mid k = dim s k) := by
      intro k
      have hk := hdim k
      rwa [dim_pad, join?_eq_some] at hk
    -- What stretches to the shape so far stretches to the final one.
    have htrans : ∀ {m k}, Stretches m (dim mid k) → Stretches m (dim out k) := by
      intro m k hm
      have hk := hstretch k
      unfold Stretches at hm hk ⊢
      omega
    refine ⟨hout, fun k => htrans (hjoin k).1, ?_, fun k => ?_⟩
    · rintro t (_ | ⟨_, ht⟩) k
      · exact htrans (hjoin k).2.1
      · exact hall t ht k
    · rcases hattained k with hk | ⟨t, ht, hk⟩
      · rcases (hjoin k).2.2 with hmk | hmk
        · exact .inl (hk.trans hmk)
        · exact .inr ⟨s, .head _, (hk.trans hmk).symm⟩
      · exact .inr ⟨t, .tail _ ht, hk⟩

theorem foldlM_joinShapes?_of_bound {n : Nat} {ss : List (List Nat)} {init e : List Nat}
    (hn : ∀ s ∈ ss, s.length ≤ n) (hinit : init.length = n)
    (he : ∀ k, Stretches (dim init k) (dim e k))
    (hs : ∀ s ∈ ss, ∀ k, Stretches (dim s k) (dim e k)) :
    ∃ out, ss.foldlM (fun out s => joinShapes? out (pad n s)) init = some out := by
  induction ss generalizing init with
  | nil => exact ⟨init, rfl⟩
  | cons s ss ih =>
    have hpad := length_pad (hn s (.head _))
    have hsk : ∀ k, Stretches (dim (pad n s) k) (dim e k) := by
      intro k
      rw [dim_pad]
      exact hs s (.head _) k
    obtain ⟨mid, hmid⟩ := joinShapes?_of_bound (hinit.trans hpad.symm) he hsk
    obtain ⟨hlen, hdim⟩ := joinShapes?_eq_some (hinit.trans hpad.symm) hmid
    have hmk : ∀ k, Stretches (dim mid k) (dim e k) := by
      intro k
      rcases (join?_eq_some.1 (hdim k)).2.2 with h | h
      · exact h ▸ he k
      · exact h ▸ hsk k
    obtain ⟨out, hout⟩ :=
      ih (fun t ht => hn t (.tail _ ht)) (hlen.trans hinit) hmk fun t ht => hs t (.tail _ ht)
    exact ⟨out, by rw [List.foldlM_cons, hmid]; exact hout⟩

theorem isJoin_of_shapes {ss : List (List Nat)} {out : List Nat} (h : shapes ss = .ok out) :
    IsJoin ss out := by
  rw [shapes_eq] at h
  split at h
  next fold hfold =>
    cases h
    obtain ⟨hlen, -, hall, hattained⟩ :=
      foldlM_joinShapes? (fun s => length_le_maxRank) List.length_replicate hfold
    refine ⟨fun s hs => hlen ▸ length_le_maxRank hs, ?_, hall, fun k => ?_⟩
    · rw [← List.length_eq_zero_iff, hlen]
      exact maxRank_attained ss
    · have hk := hattained k
      rwa [dim_replicate] at hk
  next => cases h

theorem error_of_shapes {ss : List (List Nat)} {e : Error} (h : shapes ss = .error e) :
    e = .broadcast (.shapes ss) := by
  rw [shapes_eq] at h
  split at h
  · cases h
  · cases h
    rfl

theorem IsJoin.unique {ss : List (List Nat)} {s t : List Nat} (hs : IsJoin ss s) (ht : IsJoin ss t) :
    s = t := by
  have hlen : ∀ {s t}, IsJoin ss s → IsJoin ss t → s.length ≤ t.length := by
    intro s t hs ht
    rcases hs.rank with rfl | ⟨r, hr, hrank⟩
    · exact Nat.zero_le _
    · exact hrank ▸ ht.length_le r hr
  apply eq_of_dim (Nat.le_antisymm (hlen hs ht) (hlen ht hs))
  have hdim : ∀ {s t}, IsJoin ss s → IsJoin ss t → ∀ k, Stretches (dim s k) (dim t k) := by
    intro s t hs ht k
    rcases hs.attained k with hk | ⟨r, hr, hk⟩
    · exact .inl hk
    · exact hk ▸ ht.stretches r hr k
  intro k
  have hst := hdim hs ht k
  have hts := hdim ht hs k
  unfold Stretches at hst hts
  omega

theorem exists_shapes_of_bound {ss : List (List Nat)} {e : List Nat}
    (h : ∀ s ∈ ss, ∀ k, Stretches (dim s k) (dim e k)) : ∃ out, shapes ss = .ok out := by
  obtain ⟨out, hout⟩ := foldlM_joinShapes?_of_bound (fun s hs => length_le_maxRank hs)
    List.length_replicate (fun k => .inl (dim_replicate _ k)) h
  exact ⟨out, by rw [shapes_eq, hout]⟩

theorem shapes_of_isJoin {ss : List (List Nat)} {out : List Nat} (h : IsJoin ss out) :
    shapes ss = .ok out := by
  obtain ⟨out', hout'⟩ := exists_shapes_of_bound h.stretches
  rw [hout', (isJoin_of_shapes hout').unique h]

theorem shapes_eq_ok {ss : List (List Nat)} {out : List Nat} :
    shapes ss = .ok out ↔ IsJoin ss out :=
  ⟨isJoin_of_shapes, shapes_of_isJoin⟩

theorem shapes_eq_error {ss : List (List Nat)} {e : Error} :
    shapes ss = .error e ↔ (¬∃ out, IsJoin ss out) ∧ e = .broadcast (.shapes ss) := by
  constructor
  · intro h
    refine ⟨?_, error_of_shapes h⟩
    rintro ⟨out, hout⟩
    rw [shapes_of_isJoin hout] at h
    cases h
  · rintro ⟨hno, rfl⟩
    cases h : shapes ss with
    | ok out => exact absurd ⟨out, isJoin_of_shapes h⟩ hno
    | error e => rw [error_of_shapes h]

theorem isJoin_self (s : List Nat) : IsJoin [s, s] s where
  length_le := by simp
  rank := .inr ⟨s, .head _, rfl⟩
  stretches := by
    intro t ht k
    simp only [List.mem_cons, List.not_mem_nil, or_false, or_self] at ht
    exact .inr (by rw [ht])
  attained k := .inr ⟨s, .head _, rfl⟩

end Pointwise.Broadcast
