import Asm6502.Statement
import Mathlib.Data.List.SplitBy

/-!
# Statements in two passes

A list of tokens is cut into its maximal runs, with each line break and each comment by itself, and
then each piece is classified. The statements found in this way follow each other without
overlapping, and they are exactly the comments and the runs that say something.

## Main definitions

- `Token.inRun`: the tokens that runs are made of.
- `Statement.pieces`: the maximal runs of a list of tokens.
- `Statement.ofTokens`: the statements of a list of tokens, in two passes.
- `Statement.IsRun`: a run that cannot be made longer.

## Main statements

- `Statement.name_lt_of_ofRun?`: the name of a statement is a token of its run.
- `Statement.pairwise_ofTokens`: statements do not overlap.
- `Statement.mem_ofTokens_iff`: the comments and the maximal runs that say something.
-/

namespace Asm6502

/-- The tokens that runs are made of: all but line breaks and comments. -/
def Token.inRun (t : Token) : Bool :=
  t.kind != .lineBreak && t.kind != .comment

namespace Statement

/-! ## Two passes -/

/-- The maximal runs of a list of tokens, and each line break and each comment by itself. -/
def pieces (ts : List Token) : List (List Token) :=
  ts.splitBy fun s t => s.inRun && t.inRun

/-- The statements that the pieces make, each at most one. The first piece is at index `start`. -/
def ofPieces (d : Dialect) (start : Nat) : List (List Token) → List Statement
  | [] => []
  | piece :: ps => (ofRun? d start piece).toList ++ ofPieces d (start + piece.length) ps

/-- The statements of a list of tokens. -/
def ofTokens (d : Dialect) (ts : List Token) : List Statement :=
  ofPieces d 0 (pieces ts)

theorem ofPieces_append (d : Dialect) (start : Nat) (ps qs : List (List Token)) :
    ofPieces d start (ps ++ qs) =
      ofPieces d start ps ++ ofPieces d (start + ps.flatten.length) qs := by
  induction ps generalizing start with
  | nil => rfl
  | cons p ps ih => simp [ofPieces, ih, Nat.add_assoc]

@[simp] theorem flatten_pieces (ts : List Token) : (pieces ts).flatten = ts :=
  List.flatten_splitBy _ ts

theorem pieces_run {run : List Token} (h : ∀ t ∈ run, t.inRun = true) :
    pieces run = if run = [] then [] else [run] := by
  split
  · rename_i hrun
    rw [hrun]
    rfl
  · rename_i hrun
    refine List.splitBy_of_isChain hrun (List.Pairwise.isChain ?_)
    exact List.pairwise_of_forall_mem_list fun s hs t ht => by simp [h s hs, h t ht]

/-- Nothing is joined across a token that belongs to no run. -/
theorem pieces_append {front : List Token} (h : ∀ t ∈ front.getLast?, t.inRun = false)
    (back : List Token) : pieces (front ++ back) = pieces front ++ pieces back :=
  List.splitBy_append fun x hx y _ => by simp [h x hx]

/-- A token that belongs to no run is a piece by itself. -/
theorem pieces_append_cons {t : Token} (h : t.inRun = false) (front back : List Token) :
    pieces (front ++ t :: back) = pieces front ++ [t] :: pieces back := by
  have hfront : pieces (front ++ t :: back) = pieces front ++ pieces (t :: back) :=
    List.splitBy_append_cons back fun x _ => by simp [h]
  rw [hfront, ← List.singleton_append, pieces_append (by simpa using h)]
  rfl

/-- Runs are told apart by which tokens belong to them and by nothing else. -/
theorem pieces_map {f : Token → Token} (hf : ∀ t, (f t).inRun = t.inRun) (ts : List Token) :
    pieces (ts.map f) = (pieces ts).map (List.map f) := by
  refine List.splitBy_eq_iff.2 ⟨?_, ?_, ?_, ?_⟩
  · rw [← List.map_flatten, flatten_pieces]
  · intro hnil
    obtain ⟨p, hp, hnil⟩ := List.mem_map.1 hnil
    exact List.ne_nil_of_mem_splitBy hp (List.map_eq_nil_iff.1 hnil)
  · intro p hp
    obtain ⟨q, hq, rfl⟩ := List.mem_map.1 hp
    refine (List.isChain_map _).2 ?_
    simpa [hf] using List.isChain_of_mem_splitBy hq
  · refine (List.isChain_map _).2 ((List.isChain_getLast_head_splitBy _ ts).imp ?_)
    rintro p q ⟨hp, hq, hends⟩
    exact ⟨by simpa using hp, by simpa using hq, by simpa [hf] using hends⟩

theorem ofTokens_append_cons {t : Token} (h : t.inRun = false) (d : Dialect)
    (front back : List Token) :
    ofTokens d (front ++ t :: back) =
      ofTokens d front ++ (ofRun? d front.length [t]).toList ++
        ofPieces d (front.length + 1) (pieces back) := by
  rw [ofTokens, pieces_append_cons h, ofPieces_append, flatten_pieces, ofPieces, List.append_assoc,
    Nat.zero_add]
  rfl

/-! ## One run -/

/-- A statement is about the whole of its run. -/
theorem extent_of_ofRun? {d : Dialect} {start : Nat} {run : List Token} {s : Statement}
    (h : ofRun? d start run = some s) : s.start = start ∧ s.count = run.length := by
  cases run with
  | nil => simp [ofRun?] at h
  | cons first others =>
    obtain ⟨role, -, rfl⟩ := Option.map_eq_some_iff.1 h
    exact ⟨rfl, rfl⟩

theorem role_of_rule_mem {r : Rule} (h : r ∈ rules) (n : Nat) :
    (∃ kind, r.role n = .definition kind n) ∨ r.role n = .inclusion n := by
  simp only [rules, List.mem_cons, List.not_mem_nil, or_false] at h
  rcases h with rfl | rfl | rfl | rfl | rfl | rfl | rfl | rfl | rfl <;> simp

theorem eq_of_nameRole? {d : Dialect} {start : Nat} {first : Token} {others : List Token}
    {role : Role} (h : nameRole? d start first others = some role) :
    ∃ kind, role = .definition kind start := by
  unfold nameRole? at h
  split at h
  · simp at h
  split at h
  · exact ⟨_, (Option.some.inj h).symm⟩
  split at h
  · exact ⟨_, (Option.some.inj h).symm⟩
  · simp at h

theorem eq_of_directiveRole? {d : Dialect} {start : Nat} {first : Token} {others : List Token}
    {role : Role} (h : directiveRole? d start first others = some role) :
    others ≠ [] ∧
      ((∃ kind, role = .definition kind (start + 1)) ∨ role = .inclusion (start + 1)) := by
  obtain ⟨parameter, hparameter, h⟩ := Option.bind_eq_some_iff.1 h
  obtain ⟨r, hr, rfl⟩ := Option.map_eq_some_iff.1 h
  refine ⟨?_, role_of_rule_mem (List.mem_of_find?_eq_some hr) (start + 1)⟩
  rintro rfl
  simp at hparameter

/-- The name of a statement is a token of its run. -/
theorem name_lt_of_ofRun? {d : Dialect} {start n : Nat} {run : List Token} {s : Statement}
    (h : ofRun? d start run = some s) (hn : s.name? = some n) :
    start ≤ n ∧ n < start + run.length := by
  cases run with
  | nil => simp [ofRun?] at h
  | cons first others =>
    obtain ⟨role, hrole, rfl⟩ := Option.map_eq_some_iff.1 h
    split at hrole
    · cases hrole
      simp [name?] at hn
    · obtain ⟨kind, rfl⟩ := eq_of_nameRole? hrole
      obtain rfl : start = n := by simpa [name?] using hn
      simp
    · obtain ⟨hothers, hrole⟩ := eq_of_directiveRole? hrole
      have hpos : 0 < others.length := List.length_pos_of_ne_nil hothers
      obtain rfl : start + 1 = n := by
        rcases hrole with ⟨kind, rfl⟩ | rfl <;> simpa [name?] using hn
      simp only [List.length_cons]
      omega
    · simp at hrole

theorem mem_ofPieces {d : Dialect} {start : Nat} {ps : List (List Token)} {s : Statement} :
    s ∈ ofPieces d start ps ↔
      ∃ front p back, ps = front ++ p :: back ∧
        ofRun? d (start + front.flatten.length) p = some s := by
  constructor
  · intro h
    induction ps generalizing start with
    | nil => simp [ofPieces] at h
    | cons p ps ih =>
      rcases List.mem_append.1 h with h | h
      · exact ⟨[], p, ps, rfl, by simpa using h⟩
      · obtain ⟨front, q, back, rfl, hs⟩ := ih h
        exact ⟨p :: front, q, back, rfl, by simpa [Nat.add_assoc] using hs⟩
  · rintro ⟨front, p, back, rfl, hs⟩
    rw [ofPieces_append, ofPieces, hs]
    simp

theorem name_lt_of_mem_ofPieces {d : Dialect} {start n : Nat} {ps : List (List Token)}
    {s : Statement} (h : s ∈ ofPieces d start ps) (hn : s.name? = some n) :
    n < start + ps.flatten.length := by
  obtain ⟨front, p, back, rfl, hs⟩ := mem_ofPieces.1 h
  have := (name_lt_of_ofRun? hs hn).2
  simp only [List.flatten_append, List.flatten_cons, List.length_append]
  omega

/-! ## Where statements lie -/

theorem start_le_of_mem_ofPieces {d : Dialect} {start : Nat} {ps : List (List Token)}
    {s : Statement} (h : s ∈ ofPieces d start ps) : start ≤ s.start := by
  obtain ⟨front, p, back, -, hs⟩ := mem_ofPieces.1 h
  rw [(extent_of_ofRun? hs).1]
  exact Nat.le_add_right start _

/-- The statements follow each other without overlapping. -/
theorem pairwise_ofPieces (d : Dialect) (start : Nat) {ps : List (List Token)} (h : [] ∉ ps) :
    (ofPieces d start ps).Pairwise fun s s' =>
      s.start < s'.start ∧ s.start + s.count ≤ s'.start := by
  induction ps generalizing start with
  | nil => exact .nil
  | cons p ps ih =>
    have hp : 0 < p.length := List.length_pos_of_ne_nil fun hp => h (hp ▸ List.mem_cons_self)
    refine List.pairwise_append.2
      ⟨?_, ih _ fun hps => h (List.mem_cons_of_mem p hps), fun s hs s' hs' => ?_⟩
    · cases ofRun? d start p <;> simp
    · obtain ⟨hstart, hcount⟩ := extent_of_ofRun? (Option.mem_toList.1 hs)
      have := start_le_of_mem_ofPieces hs'
      omega

theorem pairwise_ofTokens (d : Dialect) (ts : List Token) :
    (ofTokens d ts).Pairwise fun s s' => s.start < s'.start ∧ s.start + s.count ≤ s'.start :=
  pairwise_ofPieces d 0 (List.nil_notMem_splitBy _ ts)

/-- The `count` tokens from index `start` on are a run that cannot be made longer. -/
def IsRun (ts : List Token) (start count : Nat) : Prop :=
  ∃ front run back, ts = front ++ run ++ back ∧ front.length = start ∧ run.length = count ∧
    run ≠ [] ∧ (∀ t ∈ run, t.inRun = true) ∧ (∀ t ∈ front.getLast?, t.inRun = false) ∧
    ∀ t ∈ back.head?, t.inRun = false

/-- A piece is a single token, or a run. -/
theorem inRun_of_mem_pieces {ts p : List Token} (h : p ∈ pieces ts) :
    (∃ t, p = [t]) ∨ ∀ t ∈ p, t.inRun = true := by
  have chain := List.isChain_of_mem_splitBy h
  rcases p with _ | ⟨x, _ | ⟨y, p⟩⟩
  · exact .inr (by simp)
  · exact .inl ⟨x, rfl⟩
  · right
    clear h
    induction p generalizing x y with
    | nil => simpa using chain
    | cons z p ih =>
      obtain ⟨hxy, hrest⟩ := List.isChain_cons_cons.1 chain
      intro t ht
      rcases List.mem_cons.1 ht with rfl | ht
      · exact (Bool.and_eq_true_iff.1 hxy).1
      · exact ih y z hrest t ht

/-- Two pieces that follow each other are not parts of one run. -/
theorem not_inRun_of_pieces {ts p q : List Token} {front back : List (List Token)}
    (h : pieces ts = front ++ p :: q :: back) {x y : Token} (hx : p.getLast? = some x)
    (hy : q.head? = some y) : (x.inRun && y.inRun) = false := by
  have chain := List.isChain_getLast_head_splitBy (fun s t : Token => s.inRun && t.inRun) ts
  rw [← pieces, h] at chain
  obtain ⟨hp, hq, hr⟩ := (List.isChain_append_cons_cons.1 chain).2.1
  rw [List.getLast?_eq_some_getLast hp, Option.some.injEq] at hx
  rw [List.head?_eq_some_head hq, Option.some.injEq] at hy
  rwa [hx, hy] at hr

theorem isRun_of_pieces {ts p : List Token} {front back : List (List Token)}
    (h : pieces ts = front ++ p :: back) (hp : ∀ t ∈ p, t.inRun = true) :
    IsRun ts front.flatten.length p.length := by
  have hts : ts = front.flatten ++ p ++ back.flatten := by
    rw [← flatten_pieces ts, h]
    simp
  have nonempty {q : List Token} (hq : q ∈ pieces ts) : q ≠ [] := List.ne_nil_of_mem_splitBy hq
  have hpne : p ≠ [] := nonempty (by simp [h])
  refine ⟨front.flatten, p, back.flatten, hts, rfl, rfl, hpne, hp, fun x hx => ?_, fun y hy => ?_⟩
  · rcases List.eq_nil_or_concat front with rfl | ⟨front, q, rfl⟩
    · simp at hx
    · have hq : q ≠ [] := nonempty (by simp [h])
      have hlast : q.getLast? = some x := by
        simpa [List.getLast?_append_of_ne_nil _ hq] using hx
      have := not_inRun_of_pieces (by simpa using h) hlast (List.head?_eq_some_head hpne)
      simpa [hp _ (List.head_mem hpne)] using this
  · rcases back with _ | ⟨q, back⟩
    · simp at hy
    · have hq : q ≠ [] := nonempty (by simp [h])
      have hhead : q.head? = some y := by
        simpa [List.head?_append_of_ne_nil _ hq] using hy
      have := not_inRun_of_pieces h (List.getLast?_eq_some_getLast hpne) hhead
      simpa [hp _ (List.getLast_mem hpne)] using this

theorem pieces_of_isRun {front run back : List Token} (hne : run ≠ [])
    (hrun : ∀ t ∈ run, t.inRun = true) (hfront : ∀ t ∈ front.getLast?, t.inRun = false)
    (hback : ∀ t ∈ back.head?, t.inRun = false) :
    pieces (front ++ run ++ back) = pieces front ++ run :: pieces back := by
  have cut : pieces (run ++ back) = pieces run ++ pieces back :=
    List.splitBy_append fun x _ y hy => by simp [hback y hy]
  rw [List.append_assoc, pieces_append hfront, cut, pieces_run hrun, if_neg hne,
    List.singleton_append]

/-- A token that is in no run makes a statement exactly if it is a comment. -/
theorem ofRun?_singleton {d : Dialect} {start : Nat} {t : Token} (h : t.inRun = false) :
    ofRun? d start [t] = if t.kind = .comment then some ⟨.comment, start, 1⟩ else none := by
  cases hkind : t.kind <;> simp [Token.inRun, hkind] at h <;> simp [ofRun?, hkind]

/-- Exactly the comments, and the runs that say something, are statements. -/
theorem mem_ofTokens_iff {d : Dialect} {ts : List Token} {s : Statement} :
    s ∈ ofTokens d ts ↔
      (∃ t, ts[s.start]? = some t ∧ t.kind = .comment ∧ s.role = .comment ∧ s.count = 1) ∨
      (IsRun ts s.start s.count ∧ ofRun? d s.start ((ts.drop s.start).take s.count) = some s) := by
  constructor
  · intro h
    obtain ⟨front, p, back, hps, hs⟩ := mem_ofPieces.1 h
    rw [Nat.zero_add] at hs
    obtain ⟨hstart, hcount⟩ := extent_of_ofRun? hs
    have hts : ts = front.flatten ++ (p ++ back.flatten) := by
      rw [← flatten_pieces ts, hps]
      simp
    by_cases hp : ∀ t ∈ p, t.inRun = true
    · have hrun : (ts.drop s.start).take s.count = p := by simp [hts, hstart, hcount]
      rw [hrun, hstart, hcount]
      exact .inr ⟨isRun_of_pieces hps hp, hs⟩
    · -- what is no run is a single token, and of these only a comment says something
      have hmem : p ∈ pieces ts := by simp [hps]
      obtain ⟨t, rfl⟩ := (inRun_of_mem_pieces hmem).resolve_right hp
      rw [ofRun?_singleton (by simpa using hp)] at hs
      split at hs
      · rename_i hkind
        cases hs
        exact .inl ⟨t, by simp [hts], hkind, rfl, rfl⟩
      · simp at hs
  · rintro (⟨t, ht, hkind, hrole, hcount⟩ | ⟨hrun, hs⟩)
    · obtain ⟨hlt, hget⟩ := List.getElem?_eq_some_iff.1 ht
      have hts : ts = ts.take s.start ++ t :: ts.drop (s.start + 1) := by
        rw [← hget, ← List.drop_eq_getElem_cons hlt, List.take_append_drop]
      have hin : t.inRun = false := by simp [Token.inRun, hkind]
      have hs : ofRun? d s.start [t] = some s := by
        rw [ofRun?_singleton hin, if_pos hkind, ← hrole, ← hcount]
      rw [hts, ofTokens_append_cons hin, List.length_take_of_le hlt.le, hs]
      simp
    · obtain ⟨front, run, back, rfl, hstart, hcount, hne, hin, hfront, hback⟩ := hrun
      refine mem_ofPieces.2
        ⟨pieces front, run, pieces back, pieces_of_isRun hne hin hfront hback, ?_⟩
      rw [← hs]
      simp [← hstart, ← hcount]

theorem ne_lineBreak_of_mem_ofTokens {d : Dialect} {ts : List Token} {s : Statement}
    (h : s ∈ ofTokens d ts) {t : Token} (ht : t ∈ (ts.drop s.start).take s.count) :
    t.kind ≠ .lineBreak := by
  rcases mem_ofTokens_iff.1 h with ⟨c, hc, hkind, -, hcount⟩ | ⟨hrun, -⟩
  · rw [hcount, List.take_one, List.head?_drop, hc] at ht
    simp_all
  · obtain ⟨front, run, back, rfl, hstart, hcount, -, hin, -, -⟩ := hrun
    have hmem : t ∈ run := by simpa [← hstart, ← hcount] using ht
    intro hkind
    simpa [Token.inRun, hkind] using hin t hmem

end Statement

end Asm6502
