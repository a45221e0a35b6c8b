/-
  Fedservice.Entity.Function.PathsOfTree

  `tree2chains` on list objects.  The source appends to the lists that the
  recursive call returns, rebinds its own argument in the loop and takes over
  the list it got where it has none of its own yet.  `tree2chainsLoop` keeps
  that, with the lists by number: what it creates is new, and holds what the
  functional `tree2chains` returns (`tree2chainsLoop_eq`).

  The lists are the paths of the tree, each once and in the order of the tree,
  which is the lexicographic one of the positions along them (`LeafPath`).
-/

import Fedservice.Entity.Function.CollectTrustChains
import Fedservice.Entity.Function.TreeOfSuperiors

namespace Fedservice.Entity.Function

open Fedservice.Lib Fedservice.Py Fedservice.EntityStatement

variable {Key : Type}

/-! ## The loop -/

/-- The list objects there are, by number. -/
abbrev ListObjects (Key : Type) := List (List (Token Key))

/-- `for l in _lists: l.append(statement)`. -/
def appendToAll (statement : Token Key) (found : List Nat) (lists : ListObjects Key) :
    ListObjects Key :=
  found.foldl (fun lists l => lists.modify l (· ++ [statement])) lists

/-- The loop of `tree2chains` over the items of its argument, with the numbers of
    the lists in the result so far. -/
def tree2chainsLoop : Tree Key → List Nat → ListObjects Key → List Nat × ListObjects Key
  | .empty, res, lists => (res, lists)
  | .blocked _ others, res, lists =>
      tree2chainsLoop others (res ++ [lists.length]) (lists ++ [[]])
  | .branch _ statement superiors others, res, lists =>
      if superiors.isEmpty then
        tree2chainsLoop others (res ++ [lists.length]) (lists ++ [[statement]])
      else
        let found := tree2chainsLoop superiors [] lists
        tree2chainsLoop others (if res.isEmpty then found.1 else res ++ found.1)
          (appendToAll statement found.1 found.2)

theorem modify_length_append {α : Type} (f : α → α) (l new : List α) (x : α) :
    (l ++ x :: new).modify l.length f = l ++ f x :: new := by
  induction l with
  | nil => rfl
  | cons y l ih => rw [List.cons_append, List.length_cons, List.modify_succ_cons, ih]; rfl

/-- Appending to the lists created last, each of them once. -/
theorem appendToAll_range' (statement : Token Key) (lists new : ListObjects Key) :
    appendToAll statement (List.range' lists.length new.length) (lists ++ new) =
      lists ++ new.map (· ++ [statement]) := by
  induction new generalizing lists with
  | nil => rfl
  | cons x new ih =>
      have hmodify : (lists ++ x :: new).modify lists.length (· ++ [statement]) =
          (lists ++ [x ++ [statement]]) ++ new := by
        rw [modify_length_append, List.append_assoc, List.singleton_append]
      have hnext := ih (lists ++ [x ++ [statement]])
      rw [List.length_append, List.length_singleton] at hnext
      rw [List.length_cons, List.range'_succ, appendToAll, List.foldl_cons, hmodify]
      rw [appendToAll] at hnext
      rw [hnext, List.map_cons, List.append_assoc, List.singleton_append]

/-- Run: the loop adds new lists, and what they hold are the chains. -/
theorem tree2chainsLoop_eq (t : Tree Key) (res : List Nat) (lists : ListObjects Key) :
    tree2chainsLoop t res lists =
      (res ++ List.range' lists.length (tree2chains t).length, lists ++ tree2chains t) := by
  induction t generalizing res lists with
  | empty => simp [tree2chainsLoop, tree2chains]
  | blocked a others ih =>
      rw [tree2chainsLoop, ih, tree2chains]
      simp [List.range'_succ]
  | branch a s above others ihabove ih =>
      rw [tree2chainsLoop, tree2chains]
      by_cases hempty : above.isEmpty = true
      · rw [if_pos hempty, if_pos hempty, ih]
        simp [List.range'_succ]
      · -- the lists of the level above are the last ones created
        have hres : (if res.isEmpty then List.range' lists.length (tree2chains above).length
            else res ++ List.range' lists.length (tree2chains above).length) =
            res ++ List.range' lists.length (tree2chains above).length := by
          cases res <;> simp
        rw [if_neg hempty, if_neg hempty]
        simp only [ihabove, List.nil_append]
        rw [hres, appendToAll_range', ih]
        simp

/-! ## Paths -/

/-- A path from the root to a leaf: the positions along it, and its statements
    with that of the root's branch first. -/
inductive LeafPath : Tree Key → List Nat → List (Token Key) → Prop
  | leaf {t above : Tree Key} {i : Nat} {a : EntityId} {s : Token Key}
      (hentry : t.entries[i]? = some (a, some (s, above))) (habove : above.entries = []) :
      LeafPath t [i] [s]
  | up {t above : Tree Key} {i : Nat} {a : EntityId} {s : Token Key} {p : List Nat}
      {ss : List (Token Key)} (hentry : t.entries[i]? = some (a, some (s, above)))
      (hpath : LeafPath above p ss) : LeafPath t (i :: p) (s :: ss)

/-- No branch is `None`. -/
def Tree.NoneFree : Tree Key → Prop
  | .empty => True
  | .blocked _ _ => False
  | .branch _ _ superiors others => superiors.NoneFree ∧ others.NoneFree

/-- The number of leaves: of branches with nobody above them. -/
def Tree.leaves : Tree Key → Nat
  | .empty => 0
  | .blocked _ others => others.leaves
  | .branch _ _ superiors others =>
      (if superiors.isEmpty then 1 else superiors.leaves) + others.leaves

/-- The paths of the entries from the `i`-th on, in the order of the tree. -/
def leafPathsFrom : Nat → Tree Key → List (List Nat × List (Token Key))
  | _, .empty => []
  | i, .blocked _ others => leafPathsFrom (i + 1) others
  | i, .branch _ statement superiors others =>
      (if superiors.isEmpty then [([i], [statement])]
        else (leafPathsFrom 0 superiors).map (fun path => (i :: path.1, statement :: path.2))) ++
      leafPathsFrom (i + 1) others

theorem length_leafPathsFrom (t : Tree Key) (i : Nat) :
    (leafPathsFrom i t).length = t.leaves := by
  induction t generalizing i with
  | empty => rfl
  | blocked a others ih => exact ih (i + 1)
  | branch a s above others ihabove ih =>
      rw [leafPathsFrom, Tree.leaves, List.length_append, ih]
      by_cases hempty : above.isEmpty = true
      · rw [if_pos hempty, if_pos hempty, List.length_singleton]
      · rw [if_neg hempty, if_neg hempty, List.length_map, ihabove]

/-- The chains are the paths, from the top down. -/
theorem tree2chains_eq_leafPathsFrom {t : Tree Key} (hnone : t.NoneFree) (i : Nat) :
    tree2chains t = (leafPathsFrom i t).map (fun path => path.2.reverse) := by
  induction t generalizing i with
  | empty => rfl
  | blocked a others ih => exact hnone.elim
  | branch a s above others ihabove ih =>
      obtain ⟨habove, hothers⟩ := hnone
      rw [tree2chains, leafPathsFrom, List.map_append, ← ih hothers (i + 1)]
      by_cases hempty : above.isEmpty = true
      · rw [if_pos hempty, if_pos hempty]
        rfl
      · rw [if_neg hempty, if_neg hempty, ihabove habove 0, List.map_map, List.map_map]
        congr 1
        exact List.map_congr_left fun path _ => (List.reverse_cons ..).symm

/-- Inversion of `LeafPath` at the root. -/
theorem leafPath_cons {t : Tree Key} {j : Nat} {rest : List Nat} {ss : List (Token Key)} :
    LeafPath t (j :: rest) ss ↔ ∃ a s above, t.entries[j]? = some (a, some (s, above)) ∧
      ((above.entries = [] ∧ rest = [] ∧ ss = [s]) ∨
        ∃ upper, LeafPath above rest upper ∧ ss = s :: upper) := by
  constructor
  · intro h
    cases h with
    | leaf hentry habove => exact ⟨_, _, _, hentry, Or.inl ⟨habove, rfl, rfl⟩⟩
    | up hentry hpath => exact ⟨_, _, _, hentry, Or.inr ⟨_, hpath, rfl⟩⟩
  · rintro ⟨a, s, above, hentry, ⟨habove, rfl, rfl⟩ | ⟨upper, hpath, rfl⟩⟩
    · exact .leaf hentry habove
    · exact .up hentry hpath

theorem not_leafPath_of_entries_nil {t : Tree Key} (h : t.entries = []) {p : List Nat}
    {ss : List (Token Key)} : ¬ LeafPath t p ss := by
  intro hpath
  cases hpath with
  | leaf hentry _ => simp [h] at hentry
  | up hentry _ => simp [h] at hentry

theorem exists_cons_of_leafPath {t : Tree Key} {p : List Nat} {ss : List (Token Key)}
    (h : LeafPath t p ss) : ∃ j rest, p = j :: rest := by
  cases h with
  | leaf _ _ => exact ⟨_, _, rfl⟩
  | up _ _ => exact ⟨_, _, rfl⟩

/-- A path begins at the first entry or at one of the others. -/
theorem leafPath_branch {a : EntityId} {s : Token Key} {above others : Tree Key} {j : Nat}
    {rest : List Nat} {ss : List (Token Key)} :
    LeafPath (.branch a s above others) (j :: rest) ss ↔
      (j = 0 ∧ ((above.entries = [] ∧ rest = [] ∧ ss = [s]) ∨
        ∃ upper, LeafPath above rest upper ∧ ss = s :: upper)) ∨
      ∃ k, j = k + 1 ∧ LeafPath others (k :: rest) ss := by
  rw [leafPath_cons, Tree.entries]
  cases j with
  | zero =>
      simp only [List.getElem?_cons_zero, Option.some.injEq, Prod.mk.injEq]
      constructor
      · rintro ⟨a', s', above', ⟨-, rfl, rfl⟩, h⟩
        exact Or.inl ⟨trivial, h⟩
      · rintro (⟨-, h⟩ | ⟨k, hk, -⟩)
        · exact ⟨a, s, above, ⟨rfl, rfl, rfl⟩, h⟩
        · omega
  | succ k =>
      rw [List.getElem?_cons_succ]
      constructor
      · exact fun h => Or.inr ⟨k, rfl, leafPath_cons.mpr h⟩
      · rintro (⟨hzero, -⟩ | ⟨k', hk, h⟩)
        · omega
        · obtain rfl := Nat.succ.inj hk
          exact leafPath_cons.mp h

/-- The paths of the first entry: it is a leaf, or they go on above it. -/
theorem mem_firstPaths {above : Tree Key} {s : Token Key} {i : Nat} {p : List Nat}
    {ss : List (Token Key)}
    (habove : ∀ q upper, (q, upper) ∈ leafPathsFrom 0 above ↔ LeafPath above q upper) :
    (p, ss) ∈ (if above.isEmpty then [([i], [s])]
        else (leafPathsFrom 0 above).map (fun path => (i :: path.1, s :: path.2))) ↔
      ∃ rest, p = i :: rest ∧ ((above.entries = [] ∧ rest = [] ∧ ss = [s]) ∨
        ∃ upper, LeafPath above rest upper ∧ ss = s :: upper) := by
  by_cases hempty : above.isEmpty = true
  · have hnil := Tree.isEmpty_iff.mp hempty
    rw [if_pos hempty]
    simp [hnil, not_leafPath_of_entries_nil hnil]
  · have hne : above.entries ≠ [] := fun hnil => hempty (Tree.isEmpty_iff.mpr hnil)
    rw [if_neg hempty, List.mem_map]
    constructor
    · rintro ⟨⟨q, upper⟩, hq, heq⟩
      obtain ⟨rfl, rfl⟩ := Prod.mk.inj heq
      exact ⟨q, rfl, Or.inr ⟨upper, (habove q upper).mp hq, rfl⟩⟩
    · rintro ⟨rest, rfl, ⟨hnil, -⟩ | ⟨upper, hpath, rfl⟩⟩
      · exact absurd hnil hne
      · exact ⟨(rest, upper), (habove rest upper).mpr hpath, rfl⟩

/-- What is blocked has no path, and the others stand one entry further on. -/
theorem leafPath_blocked {a : EntityId} {others : Tree Key} {j : Nat} {rest : List Nat}
    {ss : List (Token Key)} :
    LeafPath (.blocked a others) (j :: rest) ss ↔
      ∃ k, j = k + 1 ∧ LeafPath others (k :: rest) ss := by
  rw [leafPath_cons]
  cases j with
  | zero => simp [Tree.entries]
  | succ j =>
      simp only [Nat.add_right_cancel_iff, exists_eq_left', leafPath_cons]
      simp [Tree.entries]

/-- The paths of the entries from the `i`-th on are those of the tree, `i` entries
    further on. -/
theorem mem_leafPathsFrom {t : Tree Key} {i : Nat} {p : List Nat} {ss : List (Token Key)} :
    (p, ss) ∈ leafPathsFrom i t ↔ ∃ j rest, p = (i + j) :: rest ∧ LeafPath t (j :: rest) ss := by
  induction t generalizing i p ss with
  | empty => simp [leafPathsFrom, leafPath_cons, Tree.entries]
  | blocked a others ih =>
      rw [leafPathsFrom, ih]
      constructor
      · rintro ⟨j, rest, rfl, h⟩
        refine ⟨j + 1, rest, by rw [Nat.add_assoc, Nat.add_comm 1], ?_⟩
        exact leafPath_blocked.mpr ⟨j, rfl, h⟩
      · rintro ⟨j, rest, rfl, h⟩
        obtain ⟨k, rfl, hthere⟩ := leafPath_blocked.mp h
        exact ⟨k, rest, by rw [Nat.add_assoc, Nat.add_comm 1], hthere⟩
  | branch a s above others ihabove ih =>
      have habove : ∀ q upper, (q, upper) ∈ leafPathsFrom 0 above ↔ LeafPath above q upper := by
        intro q upper
        simp only [ihabove, Nat.zero_add]
        constructor
        · rintro ⟨j, rest, rfl, hpath⟩
          exact hpath
        · intro hpath
          obtain ⟨j, rest, rfl⟩ := exists_cons_of_leafPath hpath
          exact ⟨j, rest, rfl, hpath⟩
      rw [leafPathsFrom, List.mem_append, mem_firstPaths habove, ih]
      constructor
      · rintro (⟨rest, rfl, h⟩ | ⟨j, rest, rfl, h⟩)
        · exact ⟨0, rest, rfl, leafPath_branch.mpr (Or.inl ⟨rfl, h⟩)⟩
        · refine ⟨j + 1, rest, by rw [Nat.add_assoc, Nat.add_comm 1], ?_⟩
          exact leafPath_branch.mpr (Or.inr ⟨j, rfl, h⟩)
      · rintro ⟨j, rest, rfl, h⟩
        rcases leafPath_branch.mp h with ⟨rfl, hhere⟩ | ⟨k, rfl, hthere⟩
        · exact Or.inl ⟨rest, rfl, hhere⟩
        · exact Or.inr ⟨k, rest, by rw [Nat.add_assoc, Nat.add_comm 1], hthere⟩

/-- The paths stand in the order of the tree. -/
theorem pairwise_leafPathsFrom (t : Tree Key) (i : Nat) :
    (leafPathsFrom i t).Pairwise (fun p q => p.1 < q.1) := by
  induction t generalizing i with
  | empty => exact List.Pairwise.nil
  | blocked a others ih => exact ih (i + 1)
  | branch a s above others ihabove ih =>
      rw [leafPathsFrom, List.pairwise_append]
      refine ⟨?_, ih (i + 1), ?_⟩
      · by_cases hempty : above.isEmpty = true
        · rw [if_pos hempty]
          exact List.pairwise_singleton ..
        · rw [if_neg hempty, List.pairwise_map]
          exact (ihabove 0).imp (fun h => List.cons_lt_cons_iff.mpr (Or.inr ⟨rfl, h⟩))
      · -- the others begin at later entries
        rintro ⟨p, ss⟩ hp ⟨q, ss'⟩ hq
        obtain ⟨j, rest, rfl, -⟩ := mem_leafPathsFrom.mp hq
        obtain ⟨rest', rfl⟩ : ∃ rest', p = i :: rest' := by
          by_cases hempty : above.isEmpty = true
          · rw [if_pos hempty, List.mem_singleton] at hp
            exact ⟨[], (Prod.mk.inj hp).1⟩
          · rw [if_neg hempty, List.mem_map] at hp
            obtain ⟨path, -, heq⟩ := hp
            exact ⟨path.1, (Prod.mk.inj heq).1.symm⟩
        exact List.cons_lt_cons_iff.mpr (Or.inl (by omega))

/-! ## What tree2chains returns -/

/-- What the numbers of the last lists stand for. -/
theorem map_getElem?_range' {α : Type} (l new : List α) :
    (List.range' l.length new.length).map ((l ++ new)[·]?) = new.map some := by
  induction new generalizing l with
  | nil => rfl
  | cons x new ih =>
      have hnext := ih (l ++ [x])
      rw [List.append_assoc, List.singleton_append, List.length_append,
        List.length_singleton] at hnext
      rw [List.length_cons, List.range'_succ, List.map_cons, List.map_cons, hnext]
      simp

/-- `tree2chains` returns new lists, all different, that hold the paths from the
    root to a leaf, each path once, in the order of the tree and turned around. -/
theorem tree2chains_enumerates_paths {t : Tree Key} (hnone : t.NoneFree)
    (lists : ListObjects Key) :
    ∃ (res : List Nat) (lists' : ListObjects Key) (paths : List (List Nat × List (Token Key))),
      tree2chainsLoop t [] lists = (res, lists') ∧ res.Nodup ∧
      (∀ l ∈ res, lists.length ≤ l) ∧ lists <+: lists' ∧
      res.map (lists'[·]?) = paths.map (fun path => some path.2.reverse) ∧
      (∀ p ss, (p, ss) ∈ paths ↔ LeafPath t p ss) ∧
      paths.Pairwise (fun p q => p.1 < q.1) ∧ res.length = t.leaves := by
  have hchains := tree2chains_eq_leafPathsFrom hnone 0
  have hlength : (tree2chains t).length = t.leaves := by
    rw [hchains, List.length_map, length_leafPathsFrom]
  refine ⟨_, _, leafPathsFrom 0 t, tree2chainsLoop_eq t [] lists, ?_, ?_, ?_, ?_, ?_, ?_, ?_⟩
  · exact List.nodup_range'
  · intro l hl
    exact (List.mem_range'_1.mp hl).1
  · exact List.prefix_append ..
  · rw [List.nil_append, map_getElem?_range', hchains, List.map_map]
    rfl
  · intro p ss
    rw [mem_leafPathsFrom]
    constructor
    · rintro ⟨j, rest, rfl, h⟩
      rwa [Nat.zero_add]
    · intro h
      obtain ⟨j, rest, rfl⟩ := exists_cons_of_leafPath h
      exact ⟨j, rest, by rw [Nat.zero_add], h⟩
  · exact pairwise_leafPathsFrom t 0
  · rw [List.nil_append, List.length_range', hlength]

/-- An entity with a trust anchor above it, and with an intermediate above it that has
    another one. -/
def mixedDepth : Tree Nat :=
  .branch "https://example.com/rp" (.text "statement1")
    (.branch "https://example.com/intermediate1" (.text "statement2")
      (.branch "https://example.com/anchor1" (.text "statement3") .empty .empty)
      (.branch "https://example.com/anchor2" (.text "statement4") .empty .empty))
    .empty

example : tree2chains mixedDepth =
    [[.text "statement3", .text "statement2", .text "statement1"],
      [.text "statement4", .text "statement1"]] := rfl

theorem tree2chains_enumerates_paths_mixedDepth :
    ∃ res lists' paths, tree2chainsLoop mixedDepth [] [] = (res, lists') ∧
      res.map (lists'[·]?) =
        (paths : List (List Nat × List (Token Nat))).map (fun path => some path.2.reverse) ∧
      (∀ p ss, (p, ss) ∈ paths ↔ LeafPath mixedDepth p ss) ∧ res.length = 2 := by
  obtain ⟨res, lists', paths, hrun, -, -, -, hheld, hpaths, -, hlength⟩ :=
    @tree2chains_enumerates_paths Nat mixedDepth ⟨⟨⟨trivial, trivial⟩, trivial, trivial⟩, trivial⟩ []
  exact ⟨res, lists', paths, hrun, hheld, hpaths, hlength⟩

end Fedservice.Entity.Function
