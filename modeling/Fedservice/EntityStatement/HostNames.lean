/-
  Fedservice.EntityStatement.HostNames

  Naming constraints against the host of a subject.  An http(s) URL is built
  here from its parts (`HttpUrl`), and so is a constraint (`NameConstraint`);
  `HostMatches` says what the constraint means for the labels of the host.

  `more_specific` cuts everything behind the scheme at the dots.  What follows
  the host (`HttpUrl.tail`) is then part of the comparison: its first piece is
  glued to the last label of the host, and the pieces behind that are compared
  in place of the host's (`hostMatches_splitOn_iff`).
-/

import Fedservice.EntityStatement.NamesInForce

namespace Fedservice.EntityStatement

open Fedservice.Lib Fedservice.Py

/-! ## URLs -/

/-- The characters that end a label of a host, or the host. -/
def hostDelimiters : List Char := ['.', ':', '/', '?', '#']

/-- A label of a host name: not empty, and without what would end it. -/
def IsLabel (l : Label) : Prop := l ≠ [] ∧ ∀ c ∈ l, c ∉ hostDelimiters

instance (l : Label) : Decidable (IsLabel l) := inferInstanceAs (Decidable (_ ∧ _))

/-- An http(s) URL by its parts. -/
structure HttpUrl where
  /-- Whether the scheme is `https`. -/
  secure : Bool
  host : List Label
  port : Option (List Char)
  path : List Char
  query : Option (List Char)
  host_ne_nil : host ≠ []
  host_labels : ∀ l ∈ host, IsLabel l
  port_digits : ∀ p ∈ port, ∀ c ∈ p, c.isDigit = true
  path_rooted : path = [] ∨ ∃ segments, path = '/' :: segments

namespace HttpUrl

/-- The name of the host: its labels with dots between them. -/
def hostName (url : HttpUrl) : List Char := ['.'].intercalate url.host

/-- What follows the host. -/
def tail (url : HttpUrl) : List Char :=
  (match url.port with
    | some p => ':' :: p
    | none => []) ++ url.path ++
  (match url.query with
    | some q => '?' :: q
    | none => [])

def text (url : HttpUrl) : EntityId :=
  String.ofList ((if url.secure then "https://" else "http://").toList ++ url.hostName ++ url.tail)

/-- What follows the host begins with a character that no label has. -/
theorem tail_eq_nil_or (url : HttpUrl) :
    url.tail = [] ∨ ∃ c rest, url.tail = c :: rest ∧ c ≠ '.' ∧ c ∈ hostDelimiters := by
  unfold tail
  cases hport : url.port with
  | some p => exact Or.inr ⟨':', _, rfl, by decide, by decide⟩
  | none =>
      rcases url.path_rooted with hpath | ⟨segments, hpath⟩
      · rw [hpath]
        cases hquery : url.query with
        | some q => exact Or.inr ⟨'?', _, rfl, by decide, by decide⟩
        | none => exact Or.inl rfl
      · rw [hpath]
        exact Or.inr ⟨'/', _, rfl, by decide, by decide⟩

end HttpUrl

/-- A naming constraint: `https://` and a domain, with or without a leading dot. -/
structure NameConstraint where
  leadingDot : Bool
  domain : List Label
  domain_ne_nil : domain ≠ []
  domain_labels : ∀ l ∈ domain, IsLabel l

namespace NameConstraint

/-- The pieces between the dots of the text; a leading dot has an empty one
    before it. -/
def pieces (c : NameConstraint) : List Label :=
  if c.leadingDot then [] :: c.domain else c.domain

def text (c : NameConstraint) : EntityId :=
  String.ofList ("https://".toList ++ ['.'].intercalate c.pieces)

/-- The labels of a host end with those of the domain, and behind a leading dot
    there is at least one more in front. -/
def HostMatches (c : NameConstraint) (host : List Label) : Prop :=
  c.domain <:+ host ∧ (c.leadingDot = true → c.domain.length < host.length)

instance (c : NameConstraint) (host : List Label) : Decidable (c.HostMatches host) :=
  inferInstanceAs (Decidable (_ ∧ _))

theorem nil_notMem_domain (c : NameConstraint) : [] ∉ c.domain :=
  fun h => (c.domain_labels [] h).1 rfl

end NameConstraint

/-! ## Cutting at the dots -/

theorem IsLabel.dot_notMem {l : Label} (h : IsLabel l) : '.' ∉ l :=
  fun hdot => h.2 '.' hdot (by decide)

/-- What follows the last label is glued to it up to its first dot. -/
theorem splitOn_label_append {l : Label} (hl : '.' ∉ l) {tail first : List Char}
    {more : List Label} (htail : tail.splitOn '.' = first :: more) :
    (l ++ tail).splitOn '.' = (l ++ first) :: more := by
  induction l with
  | nil => exact htail
  | cons c l ih =>
      rw [List.mem_cons, not_or] at hl
      rw [List.cons_append, List.splitOn_cons_eq_if_modifyHead, ih hl.2, if_neg]
      · rfl
      · simpa using Ne.symm hl.1

theorem splitOn_host_append {init : List Label} {last : Label}
    (hlabels : ∀ l ∈ init ++ [last], '.' ∉ l) {tail first : List Char} {more : List Label}
    (htail : tail.splitOn '.' = first :: more) :
    (['.'].intercalate (init ++ [last]) ++ tail).splitOn '.' = init ++ (last ++ first) :: more := by
  induction init with
  | nil =>
      rw [List.nil_append, List.intercalate_singleton]
      exact splitOn_label_append (hlabels last (by simp)) htail
  | cons l init ih =>
      have hl : '.' ∉ l := hlabels l (by simp)
      have hrest := ih (fun l' hl' => hlabels l' (List.mem_cons_of_mem _ hl'))
      rw [List.cons_append, List.intercalate_cons_of_ne_nil (by simp)]
      rw [List.append_assoc, List.append_assoc, List.singleton_append]
      rw [List.splitOn_append_cons_self_of_not_mem hl, hrest]
      rfl

/-- A list that lacks an element ends the same list before and behind it. -/
theorem suffix_append_cons_iff_of_notMem {α : Type} {x : α} {l init rest : List α} (hx : x ∉ l) :
    l <:+ init ++ x :: rest ↔ l <:+ rest := by
  induction init with
  | nil =>
      rw [List.nil_append, List.suffix_cons_iff]
      constructor
      · rintro (rfl | h)
        · exact absurd (List.mem_cons_self ..) hx
        · exact h
      · exact Or.inr
  | cons y init ih =>
      rw [List.cons_append, List.suffix_cons_iff, ih]
      constructor
      · rintro (rfl | h)
        · exact absurd (by simp) hx
        · exact h
      · exact Or.inr

/-! ## The labels that are compared -/

theorem removeScheme_https (rest : List Char) :
    removeScheme (String.ofList ("https://".toList ++ rest)) = .ok rest := by
  simp [removeScheme]

theorem removeScheme_http (rest : List Char) :
    removeScheme (String.ofList ("http://".toList ++ rest)) = .ok rest := by
  simp [removeScheme]

theorem labels_of_removeScheme {url : EntityId} {rest : List Char}
    (h : removeScheme url = .ok rest) : labels url = .ok (rest.splitOn '.').reverse := by
  rw [labels, h]
  rfl

theorem labels_url (url : HttpUrl) :
    labels url.text = .ok ((url.hostName ++ url.tail).splitOn '.').reverse := by
  have hscheme : removeScheme url.text = .ok (url.hostName ++ url.tail) := by
    unfold HttpUrl.text
    rw [List.append_assoc]
    cases url.secure with
    | true => exact removeScheme_https _
    | false => exact removeScheme_http _
  exact labels_of_removeScheme hscheme

theorem labels_constraint (c : NameConstraint) : labels c.text = .ok c.pieces.reverse := by
  have hdots : ∀ l ∈ c.pieces, '.' ∉ l := by
    intro l hl
    unfold NameConstraint.pieces at hl
    cases hdot : c.leadingDot with
    | true =>
        simp only [hdot, if_true, List.mem_cons] at hl
        rcases hl with rfl | hl
        · exact List.not_mem_nil
        · exact (c.domain_labels l hl).dot_notMem
    | false =>
        simp only [hdot, Bool.false_eq_true, if_false] at hl
        exact (c.domain_labels l hl).dot_notMem
  have hne : c.pieces ≠ [] := by
    unfold NameConstraint.pieces
    cases c.leadingDot with
    | true => simp
    | false => simpa using c.domain_ne_nil
  have hlabels := labels_of_removeScheme (removeScheme_https (['.'].intercalate c.pieces))
  rwa [List.splitOn_intercalate '.' hdots hne] at hlabels

/-- The pieces of a text against those of a constraint. -/
theorem refines_pieces_iff (c : NameConstraint) (parts : List Label) :
    refines [] parts.reverse c.pieces.reverse = true ↔ c.HostMatches parts := by
  have hwild : [] ∉ c.domain.reverse := fun h => c.nil_notMem_domain (List.mem_reverse.mp h)
  unfold NameConstraint.pieces NameConstraint.HostMatches
  cases c.leadingDot with
  | true =>
      rw [if_pos rfl, List.reverse_cons, refines_concat_iff_prefix [] hwild, List.reverse_prefix]
      simp
  | false =>
      rw [if_neg Bool.false_ne_true, refines_iff_prefix [] hwild, List.reverse_prefix]
      simp

/-- `more_specific` reads all that stands behind the scheme. -/
theorem moreSpecific_text (url : HttpUrl) (c : NameConstraint) :
    moreSpecific url.text c.text =
      .ok (decide (c.HostMatches ((url.hostName ++ url.tail).splitOn '.'))) := by
  refine moreSpecific_eq_ok.mpr ⟨_, _, labels_url url, labels_constraint c, ?_⟩
  rw [Bool.eq_iff_iff, decide_eq_true_eq, refines_pieces_iff]

/-! ## What the host decides -/

namespace HttpUrl

/-- The pieces between the dots of what follows the host, without the first
    one, which belongs to the last label of the host. -/
def piecesBehindHost (url : HttpUrl) : List Label := (url.tail.splitOn '.').tail

theorem splitOn_hostName (url : HttpUrl) : url.hostName.splitOn '.' = url.host :=
  List.splitOn_intercalate '.' (fun l hl => (url.host_labels l hl).dot_notMem) url.host_ne_nil

/-- Where something follows the host, a piece that is no label stands between
    the labels of the host and what is compared first. -/
theorem splitOn_hostName_append {url : HttpUrl} (htail : url.tail ≠ []) :
    ∃ glued, ¬ IsLabel glued ∧ (url.hostName ++ url.tail).splitOn '.' =
      url.host.dropLast ++ glued :: url.piecesBehindHost := by
  rcases url.tail_eq_nil_or with hnil | ⟨c, rest, hrest, hdot, hc⟩
  · exact absurd hnil htail
  · obtain ⟨first, more, hsplit⟩ := List.exists_cons_of_ne_nil (List.splitOn_ne_nil '.' rest)
    have hcut : url.tail.splitOn '.' = (c :: first) :: more := by
      rw [hrest, List.splitOn_cons_eq_if_modifyHead, hsplit, if_neg (by simpa using hdot)]
      rfl
    have hhost := List.dropLast_append_getLast url.host_ne_nil
    refine ⟨url.host.getLast url.host_ne_nil ++ c :: first, ?_, ?_⟩
    · exact fun hlabel => hlabel.2 c (by simp) hc
    · rw [piecesBehindHost, hcut, List.tail_cons, ← splitOn_host_append _ hcut, hhost]
      · rfl
      · rw [hhost]
        exact fun l hl => (url.host_labels l hl).dot_notMem

end HttpUrl

/-- Behind a port, a path or a query it is the pieces there that match or not. -/
theorem hostMatches_splitOn_iff {url : HttpUrl} (c : NameConstraint) (htail : url.tail ≠ []) :
    c.HostMatches ((url.hostName ++ url.tail).splitOn '.') ↔
      c.domain <:+ url.piecesBehindHost := by
  obtain ⟨glued, hglued, hsplit⟩ := HttpUrl.splitOn_hostName_append htail
  have hnot : glued ∉ c.domain := fun hmem => hglued (c.domain_labels glued hmem)
  rw [hsplit, NameConstraint.HostMatches, suffix_append_cons_iff_of_notMem hnot]
  constructor
  · exact fun h => h.1
  · intro h
    refine ⟨h, fun _ => ?_⟩
    have hlen := h.length_le
    rw [List.length_append, List.length_cons]
    omega

theorem matchesSome_singleton (subjectId entry : EntityId) :
    matchesSome subjectId [entry] = moreSpecific subjectId entry := by
  rw [matchesSome]
  cases moreSpecific subjectId entry with
  | error e => rfl
  | ok r => cases r <;> rfl

/-- `permitted` and `excluded` go by the host of a subject alone exactly where
    nothing follows it, or where what follows matches just when the host does. -/
theorem host_decides_iff (url : HttpUrl) (c : NameConstraint) :
    (permitted url.text [c.text] = .ok (decide (c.HostMatches url.host)) ∧
      excluded url.text [c.text] = .ok (decide (c.HostMatches url.host))) ↔
    url.tail = [] ∨ (c.HostMatches url.host ↔ c.domain <:+ url.piecesBehindHost) := by
  unfold permitted excluded
  rw [matchesSome_singleton, moreSpecific_text, and_self, Except.ok.injEq, decide_eq_decide]
  by_cases htail : url.tail = []
  · -- the pieces compared are the labels of the host
    rw [htail, List.append_nil, url.splitOn_hostName]
    simp
  · rw [hostMatches_splitOn_iff c htail, or_iff_right htail]
    exact iff_comm

/-! ## A path that hides the host, and one that poses as it -/

/-- An operator of the organisation, at a path. -/
def operatorUrl : HttpUrl where
  secure := true
  host := ["foo".toList, "example".toList, "org".toList]
  port := none
  path := "/op".toList
  query := none
  host_ne_nil := by decide
  host_labels := by simp [IsLabel, hostDelimiters]
  port_digits := by decide
  path_rooted := Or.inr ⟨_, rfl⟩

/-- Another host, with a path that ends like the organisation. -/
def lookalikeUrl : HttpUrl where
  secure := true
  host := ["evil".toList, "com".toList]
  port := none
  path := "/x.example.org".toList
  query := none
  host_ne_nil := by decide
  host_labels := by simp [IsLabel, hostDelimiters]
  port_digits := by decide
  path_rooted := Or.inr ⟨_, rfl⟩

/-- All hosts of the organisation. -/
def organisation : NameConstraint where
  leadingDot := true
  domain := ["example".toList, "org".toList]
  domain_ne_nil := by decide
  domain_labels := by simp [IsLabel, hostDelimiters]

/-- The path of the operator stops its host from matching, and that of the
    other one makes it match. -/
theorem path_decides_match :
    operatorUrl.text = "https://foo.example.org/op" ∧
    lookalikeUrl.text = "https://evil.com/x.example.org" ∧
    organisation.text = "https://.example.org" ∧
    organisation.HostMatches operatorUrl.host ∧ ¬ organisation.HostMatches lookalikeUrl.host ∧
    permitted operatorUrl.text [organisation.text] = .ok false ∧
    excluded operatorUrl.text [organisation.text] = .ok false ∧
    permitted lookalikeUrl.text [organisation.text] = .ok true ∧
    excluded lookalikeUrl.text [organisation.text] = .ok true := by
  refine ⟨by decide, by decide, by decide, by decide, by decide, ?_⟩
  unfold permitted excluded
  rw [matchesSome_singleton, matchesSome_singleton, moreSpecific_text, moreSpecific_text]
  decide

end Fedservice.EntityStatement
