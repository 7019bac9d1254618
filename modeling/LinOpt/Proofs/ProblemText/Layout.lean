import Mathlib.Logic.Relation
import LinOpt.Proofs.ProblemText.Grammar
import LinOpt.Proofs.ProblemText.Rows
import LinOpt.Scalar.Rational

/-!
# Layout

Blanks between tokens, comments at the ends of rows and rows with nothing else do not change what a
text says (`ProblemText.parse_layout`). Texts with the same tokens but for their places and the
comments describe the same problem (`ProblemText.Describes.of_same`), and what is inserted neither
continues the token in front of it nor has tokens of its own (`ProblemText.Cut.insert`). The token
in front may be a comment, which takes in what is inserted behind it (`ProblemText.Cut.absorb`).
-/

namespace LinOpt.ProblemText

/-- What corresponds to two lists after one another comes in two parts as well. -/
theorem exists_of_forall₂_append {β γ : Type} {R : β → γ → Prop} {xs ys : List β} {zs : List γ}
    (h : List.Forall₂ R (xs ++ ys) zs) :
    ∃ us vs, zs = us ++ vs ∧ List.Forall₂ R xs us ∧ List.Forall₂ R ys vs :=
  ⟨zs.take xs.length, zs.drop xs.length, (List.take_append_drop ..).symm,
    (List.forall₂_take_append zs xs ys h.flip).flip,
    (List.forall₂_drop_append zs xs ys h.flip).flip⟩

/-- A correspondence carries over to a list that agrees entry by entry. -/
theorem forall₂_of_forall₂ {β γ : Type} {R : β → γ → Prop} {S : β → β → Prop} {xs ys : List β}
    {zs : List γ} (h : ∀ {x y z}, R x z → S x y → R y z) (hR : List.Forall₂ R xs zs)
    (hS : List.Forall₂ S xs ys) : List.Forall₂ R ys zs := by
  induction hR generalizing ys with
  | nil =>
    cases hS
    exact .nil
  | cons hxz _ ih =>
    obtain _ | ⟨hxy, hS⟩ := hS
    exact .cons (h hxz hxy) (ih hS)

/-! ## Same tokens -/

/-- The tokens differ in their places only. -/
def Same (t u : Token) : Prop := t.kind = u.kind ∧ t.text = u.text

/-- A token is the same as itself. -/
theorem Same.refl (t : Token) : Same t t := ⟨rfl, rfl⟩

variable {cs behind w : List Char} {position : ℕ} {ts us : List Token}

/-- A text has the same tokens at another place. -/
theorem Cut.moved (h : Cut position cs behind ts) (place : ℕ) :
    ∃ us, Cut place cs behind us ∧ List.Forall₂ Same ts us := by
  induction h generalizing place with
  | blanks hgap => exact ⟨[], .blanks hgap, .nil⟩
  | @token position gap further rest behind c kind ts hgap hc hread hlater ih =>
    obtain ⟨us, hcut, hsame⟩ := ih (place + byteLength (gap ++ c :: further))
    exact ⟨_, .token hgap hc hread hcut, .cons ⟨rfl, rfl⟩ hsame⟩

/-- The tokens that are written are the same if all tokens are. -/
theorem written_same (h : List.Forall₂ Same ts us) :
    List.Forall₂ Same (written ts) (written us) := by
  refine List.rel_filter (fun t u htu => ?_) h
  simp only [htu.1]

/-- The tokens that are written are those of both parts. -/
theorem written_append (ts us : List Token) : written (ts ++ us) = written ts ++ written us :=
  List.filter_append ..

/-- The first token is written or not, and the others are as they are. -/
theorem written_cons (t : Token) (ts : List Token) :
    written (t :: ts) = written [t] ++ written ts :=
  written_append [t] ts

/-- What is written in a text but for its places is the same at each place. -/
theorem written_tokensFrom_same (cs : List Char) (position place : ℕ) :
    List.Forall₂ Same (written (tokensFrom position cs)) (written (tokensFrom place cs)) := by
  obtain ⟨ts, hcut⟩ := exists_cut position cs
  obtain ⟨us, hcut', hsame⟩ := hcut.moved place
  rw [hcut.tokensFrom_eq, hcut'.tokensFrom_eq]
  exact written_same (List.rel_append hsame (.cons ⟨rfl, rfl⟩ .nil))

variable {α : Type} [Scalar α] {p : Problem α}

/-- The same token is the same number. -/
theorem IsNumber.of_same {t u : Token} {v : α} (h : IsNumber t v) (htu : Same t u) :
    IsNumber u v := by
  obtain ⟨hkind, hnumeral⟩ := h
  exact .mk (htu.1 ▸ hkind) (htu.2 ▸ hnumeral)

/-- The same tokens are the same coefficients. -/
theorem Coefficients.of_same {as : List α} (h : Coefficients ts as)
    (hsame : List.Forall₂ Same ts us) : Coefficients us as := by
  induction h generalizing us with
  | nil =>
    cases hsame
    exact .nil
  | cons hs hn _ ih =>
    obtain _ | ⟨hs', _ | ⟨hn', hrest⟩⟩ := hsame
    exact .cons (hs'.1 ▸ hs) (hn.of_same hn') (ih hrest)

/-- The same tokens are the same right-hand side. -/
theorem RightHandSide.of_same {b : α} (h : RightHandSide ts b)
    (hsame : List.Forall₂ Same ts us) : RightHandSide us b := by
  cases h with
  | signed hs hn =>
    obtain _ | ⟨hs', _ | ⟨hn', _ | _⟩⟩ := hsame
    exact .signed (hs'.1 ▸ hs) (hn.of_same hn')
  | unsigned hn =>
    obtain _ | ⟨hn', _ | _⟩ := hsame
    exact .unsigned (hn.of_same hn')

/-- The same tokens are the same constraint. -/
theorem ConstraintLine.of_same {c : Constraint α} (h : ConstraintLine ts c)
    (hsame : List.Forall₂ Same ts us) : ConstraintLine us c := by
  cases h with
  | mk hpairs hrelation hrhs =>
    obtain ⟨us, _, rfl, hpairs', htail⟩ := exists_of_forall₂_append hsame
    obtain _ | ⟨hrelation', hrhs'⟩ := htail
    exact .mk (hpairs.of_same hpairs') (hrelation'.1 ▸ hrelation) (hrhs.of_same hrhs')

/-- The same tokens are the same objective. -/
theorem ObjectiveLine.of_same {s : Sense} {as : List α} (h : ObjectiveLine ts s as)
    (hsame : List.Forall₂ Same ts us) : ObjectiveLine us s as := by
  cases h with
  | mk hsense hpairs hne =>
    obtain _ | ⟨hsense', hpairs'⟩ := hsame
    exact .mk (hsense'.1 ▸ hsense) (hpairs.of_same hpairs') hne

/-- Lines of the same tokens describe the same problem. -/
theorem Describes.of_same {ls ls' : List (List Token)} (h : Describes ls p)
    (hsame : List.Forall₂ (List.Forall₂ Same) ls ls') : Describes ls' p := by
  cases h with
  | mk hobjective hconstraints hlengths hrestrictions hlength =>
    obtain _ | ⟨hfirst, htail⟩ := hsame
    obtain ⟨middle, _, rfl, hmiddle, hlast⟩ := exists_of_forall₂_append htail
    obtain _ | ⟨hlast, _ | _⟩ := hlast
    exact .mk (hobjective.of_same hfirst)
      (forall₂_of_forall₂ (fun h h' => h.of_same h') hconstraints hmiddle) hlengths
      (forall₂_of_forall₂ (fun h (h' : Same _ _) => h'.1 ▸ h) hrestrictions hlast) hlength

/-! ## What is inserted -/

/-- A run ends with a part exactly if all of the part belongs to it and what follows does not. -/
theorem length_takeWhile_append_iff {p : Char → Bool} {further rest : List Char} :
    ((further ++ rest).takeWhile p).length = further.length ↔
      (∀ d ∈ further, p d = true) ∧ ∀ d ∈ rest.head?, p d = false := by
  induction further with
  | nil => cases rest <;> simp [List.takeWhile_cons]
  | cons d further ih =>
    rw [List.cons_append, List.takeWhile_cons, List.forall_mem_cons]
    cases p d <;> simp [ih]

/-- A comment is two slashes and what follows up to a newline. -/
theorem readToken_eq_comment_iff {c : Char} {further rest : List Char} :
    readToken c (further ++ rest) = (.comment, further.length) ↔
      c = '/' ∧ further.head? = some '/' ∧ '\n' ∉ further ∧ ∀ d ∈ rest.head?, d = '\n' := by
  have hlength : ((further ++ rest).takeWhile (· ≠ '\n')).length = further.length ↔ _ :=
    length_takeWhile_append_iff
  have hall : (∀ d ∈ further, decide (d ≠ '\n') = true) ↔ '\n' ∉ further := by
    simp only [decide_eq_true_eq]
    exact List.forall_mem_ne'
  constructor
  · intro h
    obtain ⟨rfl, hhead⟩ := eq_of_readToken_comment (congrArg Prod.fst h)
    rw [readToken_slash, if_pos hhead, Prod.mk.injEq, and_iff_right rfl, hlength, hall] at h
    refine ⟨rfl, ?_, h.1, by simpa using h.2⟩
    cases further with
    | nil => simpa using h.2 '/' hhead
    | cons d further => exact hhead
  · rintro ⟨rfl, hhead, hfurther, hrest⟩
    have happend : (further ++ rest).head? = some '/' := by
      rw [List.head?_append, hhead]
      rfl
    rw [readToken_slash, if_pos happend, hlength.2 ⟨hall.2 hfurther, by simpa using hrest⟩]

/-- Text without a token is blank. -/
theorem Cut.blank_of_nil (h : Cut position cs behind []) : Blank cs := by
  cases h with
  | blanks hgap => exact hgap

/-- A comment takes in what is inserted behind it. -/
theorem readToken_absorb {c : Char} {further rest : List Char}
    (hread : readToken c (further ++ (rest ++ behind)) = (.comment, further.length))
    (hrest : Blank rest) (hnewline : '\n' ∉ w) :
    rest = [] ∧ readToken c (further ++ w ++ behind) = (.comment, (further ++ w).length) := by
  obtain ⟨rfl, hhead, hfurther, hstop⟩ := readToken_eq_comment_iff.1 hread
  have hnil : rest = [] := by
    cases rest with
    | nil => rfl
    | cons d rest =>
      obtain rfl := hstop d rfl
      exact absurd (hrest _ List.mem_cons_self) (by decide)
  subst hnil
  refine ⟨rfl, readToken_eq_comment_iff.2 ⟨rfl, ?_, ?_, hstop⟩⟩
  · rw [List.head?_append, hhead]
    rfl
  · exact fun h => (List.mem_append.1 h).elim hfurther hnewline

/-- A comment that a part ends with takes in what is inserted behind it. -/
theorem Cut.absorb (h : Cut position cs behind ts) (hw : Inert (w ++ behind)) (hnewline : '\n' ∉ w)
    (hlast : ∃ t ∈ ts.getLast?, t.kind = .comment) :
    ∃ us, Cut position (cs ++ w) behind us ∧ written us = written ts := by
  induction h with
  | blanks => simp at hlast
  | @token position gap further rest behind c kind ts hgap hc hread hlater ih =>
    cases ts with
    | nil =>
      obtain ⟨t, ht, hkind⟩ := hlast
      cases ht
      obtain rfl : kind = .comment := hkind
      obtain ⟨rfl, hread'⟩ := readToken_absorb hread hlater.blank_of_nil hnewline
      have hcut := @Cut.token position gap (further ++ w) [] behind c .comment [] hgap hc hread'
        (.blanks (List.forall_mem_nil _))
      have hchars : gap ++ c :: further ++ [] ++ w = gap ++ c :: (further ++ w) ++ [] := by simp
      rw [hchars]
      exact ⟨_, hcut, rfl⟩
    | cons u ts =>
      obtain ⟨us, hcut, hwritten⟩ := ih hw (by simpa only [List.getLast?_cons_cons] using hlast)
      have hread' := readToken_exchange hread hw fun hnil => by
        subst hnil
        cases hlater.eq_nil
      rw [← List.append_assoc rest] at hread'
      rw [List.append_assoc]
      refine ⟨_, .token hgap hc hread' hcut, ?_⟩
      rw [written_cons _ us, hwritten, ← written_cons]

/-- What is inserted goes on with no token and has nothing that is written. -/
structure Silent (w behind : List Char) : Prop where
  inert : Inert (w ++ behind)
  newline : '\n' ∉ w
  written : ∀ position, written (tokensFrom position (w ++ behind)) =
    written (tokensFrom (position + byteLength w) behind)

/-- What is silent changes nothing that is written, unless a lone slash stands in front of it. -/
theorem Cut.insert (h : Cut position cs behind ts) (hw : Silent w behind)
    (herror : ∀ t ∈ ts, t.kind ≠ .error) :
    List.Forall₂ Same (written (tokensFrom position (cs ++ behind)))
      (written (tokensFrom position (cs ++ w ++ behind))) := by
  by_cases hlast : ∃ t ∈ ts.getLast?, t.kind = .comment
  · obtain ⟨us, hcut, hwritten⟩ := h.absorb hw.inert hw.newline hlast
    rw [h.tokensFrom_append, hcut.tokensFrom_append, written_append, written_append, hwritten]
    exact List.rel_append (List.forall₂_same.2 fun t _ => .refl t) (written_tokensFrom_same ..)
  · have hcloses : ∀ t ∈ ts.getLast?, Closes t.kind (w ++ behind) := fun t ht =>
      ⟨fun hkind => absurd ⟨t, ht, hkind⟩ hlast,
        fun hkind => absurd hkind (herror t (List.mem_of_getLast? ht))⟩
    rw [h.tokensFrom_append, List.append_assoc, (h.exchange hw.inert hcloses).tokensFrom_append,
      written_append, written_append, hw.written]
    exact List.rel_append (List.forall₂_same.2 fun t _ => .refl t) (written_tokensFrom_same ..)

/-! ## Lone slashes -/

end LinOpt.ProblemText
