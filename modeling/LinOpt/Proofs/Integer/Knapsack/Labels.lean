import Mathlib.Data.List.Shortlex
import Mathlib.Data.String.Basic
import Mathlib.Order.RelIso.Basic
import LinOpt.Proofs.Integer.Knapsack.Queue
import LinOpt.Text.Wording

/-!
# The labels of candidates

A word over the letters `A` to `Z` is a numeral in base 26, with the letters as the digits from 1 to
26 (`Knapsack.ordinal`). No letter stands for zero, so every number has exactly one numeral, the
empty word if it is zero (`Knapsack.ordinal_numeral`, `Knapsack.numeral_ordinal`). The label of
number `n` is the numeral of `n + 1`: its last letter is the remainder of `n`, and what stands
before it is the numeral of the quotient (`Knapsack.label_eq`). So what holds of all numerals is
carried from the quotient to the number (`Knapsack.numeral_induction`), also across the lengths,
where a quotient stops being zero. In particular numerals are in the order of what they stand for,
shorter ones first and those of one length alphabetically (`Knapsack.shortlex_numeral_iff`).

A search numbers its candidates as it finds them (`Knapsack.Loop.Reached.numbered`), so no two of
them have the same label.
-/

namespace LinOpt.Knapsack

/-! ## Letters -/

/-- The letter behind `k` others. -/
def letter (k : ℕ) : Char := Char.ofNat ('A'.toNat + k)

/-- The letters that labels are written with. -/
def IsLetter (c : Char) : Prop := 'A' ≤ c ∧ c ≤ 'Z'

/-- The digit that a letter stands for: 1 for `A` up to 26 for `Z`. -/
def digit (c : Char) : ℕ := c.toNat - 'A'.toNat + 1

/-- Letters by their numbers. -/
theorem isLetter_iff {c : Char} : IsLetter c ↔ 65 ≤ c.toNat ∧ c.toNat ≤ 90 := Iff.rfl

/-- The number of a letter. -/
theorem toNat_letter {k : ℕ} (h : k < 26) : (letter k).toNat = 65 + k := by
  decide +revert

/-- What is counted as a letter is one. -/
theorem isLetter_letter {k : ℕ} (h : k < 26) : IsLetter (letter k) := by
  rw [isLetter_iff, toNat_letter h]
  omega

/-- Letters stand for digits from one on. -/
theorem digit_letter {k : ℕ} (h : k < 26) : digit (letter k) = k + 1 := by
  rw [digit, toNat_letter h]
  exact congrArg (· + 1) (Nat.add_sub_cancel_left 65 k)

/-- Letters are in the order of the alphabet. -/
theorem letter_lt {j k : ℕ} (h : j < k) (hk : k < 26) : letter j < letter k := by
  show (letter j).toNat < (letter k).toNat
  rw [toNat_letter (h.trans hk), toNat_letter hk]
  exact Nat.add_lt_add_left h 65

/-- Every letter is one of the 26. -/
theorem IsLetter.exists_letter {c : Char} (h : IsLetter c) : ∃ k < 26, c = letter k := by
  obtain ⟨hA, hZ⟩ := isLetter_iff.1 h
  refine ⟨c.toNat - 65, by omega, ?_⟩
  rw [letter, show 'A'.toNat + (c.toNat - 65) = c.toNat from Nat.add_sub_of_le hA, Char.ofNat_toNat]

/-! ## Numerals -/

/-- The number that a word stands for in base 26. -/
def ordinal (w : List Char) : ℕ := w.foldl (fun n c => 26 * n + digit c) 0

/-- One letter more is one digit more. -/
theorem ordinal_concat (w : List Char) (c : Char) : ordinal (w ++ [c]) = 26 * ordinal w + digit c :=
  List.foldl_concat _ _ _ _

/-- The word that stands for a number. A label is one number behind, since `A` is the label of
zero. -/
def numeral : ℕ → List Char
  | 0 => []
  | n + 1 => label n

/-- A label ends with the letter of the remainder, behind the numeral of the quotient. -/
theorem label_eq (n : ℕ) : label n = numeral (n / 26) ++ [letter (n % 26)] := by
  rw [label, labelDigits, List.reverse_cons]
  by_cases h : n < 26
  · rw [if_pos h, Nat.div_eq_of_lt h]
    rfl
  · obtain ⟨q, hq⟩ : ∃ q, n / 26 = q + 1 := ⟨n / 26 - 1, by omega⟩
    rw [if_neg h, hq]
    rfl

/-- What holds of the empty word, and of a label whenever it holds of what stands before the last
letter, holds of all numerals. -/
theorem numeral_induction {P : ℕ → Prop} (zero : P 0) (succ : ∀ n, P (n / 26) → P (n + 1))
    (k : ℕ) : P k := by
  induction k using Nat.strong_induction_on with
  | h k ih =>
    cases k with
    | zero => exact zero
    | succ n => exact succ n (ih _ (by omega))

/-- Numerals are written in letters. -/
theorem isLetter_numeral (k : ℕ) : ∀ c ∈ numeral k, IsLetter c := by
  induction k using numeral_induction with
  | zero => exact List.forall_mem_nil _
  | succ n ih =>
    rw [numeral, label_eq]
    exact List.forall_mem_append.2
      ⟨ih, List.forall_mem_singleton.2 (isLetter_letter (n.mod_lt (by omega)))⟩

/-- The numeral of a number stands for it. -/
theorem ordinal_numeral (k : ℕ) : ordinal (numeral k) = k := by
  induction k using numeral_induction with
  | zero => rfl
  | succ n ih =>
    rw [numeral, label_eq, ordinal_concat, ih, digit_letter (n.mod_lt (by omega))]
    omega

/-- A word is the numeral of what it stands for. The induction is on the word from its end, since
that is where a label is taken apart. -/
theorem numeral_ordinal {w : List Char} (h : ∀ c ∈ w, IsLetter c) : numeral (ordinal w) = w := by
  induction w using List.reverseRecOn with
  | nil => rfl
  | append_singleton w c ih =>
    obtain ⟨hw, hc⟩ := List.forall_mem_append.1 h
    obtain ⟨k, hk, rfl⟩ := (hc c (List.mem_singleton_self c)).exists_letter
    have hquotient : (26 * ordinal w + k) / 26 = ordinal w := by omega
    have hremainder : (26 * ordinal w + k) % 26 = k := by omega
    rw [ordinal_concat, digit_letter hk, ← Nat.add_assoc, numeral, label_eq, hquotient, hremainder,
      ih hw]

/-! ## The order of numerals -/

/-- The order of words of one length is decided where they differ, whatever comes behind them. -/
theorem lex_append {r : Char → Char → Prop} {u w : List Char} (h : List.Lex r u w)
    (hlength : u.length = w.length) (u' w' : List Char) : List.Lex r (u ++ u') (w ++ w') := by
  induction h with
  | nil => cases hlength
  | cons _ ih => exact .cons (ih (Nat.succ.inj hlength))
  | rel hr => exact .rel hr

/-- One more letter leaves words in their order. -/
theorem shortlex_concat {r : Char → Char → Prop} {u w : List Char} (h : List.Shortlex r u w)
    (c d : Char) : List.Shortlex r (u ++ [c]) (w ++ [d]) := by
  rcases List.shortlex_def.1 h with hlt | ⟨heq, hlex⟩
  · exact .of_length_lt (by simpa using hlt)
  · exact .of_lex (by simpa using heq) (lex_append hlex heq _ _)

/-- The numeral of a greater number comes later. -/
theorem shortlex_numeral {j k : ℕ} (h : j < k) :
    List.Shortlex (· < ·) (numeral j) (numeral k) := by
  induction k using numeral_induction generalizing j with
  | zero => cases h
  | succ n ih =>
    cases j with
    | zero =>
      refine .of_length_lt ?_
      rw [numeral, numeral, label_eq, List.length_append]
      exact Nat.succ_pos _
    | succ m =>
      rw [numeral, numeral, label_eq, label_eq]
      have hmn : m < n := Nat.lt_of_succ_lt_succ h
      rcases (Nat.div_le_div_right (c := 26) hmn.le).lt_or_eq with hlt | heq
      · exact shortlex_concat (ih hlt) _ _
      · -- the last letters decide
        have hremainder : m % 26 < n % 26 := by omega
        have hletter := letter_lt hremainder (n.mod_lt (by omega))
        rw [heq]
        exact .append_left ((List.shortlex_singleton_iff _ _).2 hletter) _

/-- Numbers are in the order of their numerals: two words cannot both come first, so the order of
the numerals decides that of the numbers. -/
theorem shortlex_numeral_iff {j k : ℕ} :
    List.Shortlex (· < ·) (numeral j) (numeral k) ↔ j < k :=
  (RelEmbedding.ofMonotone (r := (· < ·)) (s := List.Shortlex (· < ·)) numeral
    fun _ _ => shortlex_numeral).map_rel_iff

/-! ## Written labels -/

open Wording (packingLabel)

/-- A nonempty word over the letters. -/
structure IsWord (s : String) : Prop where
  ne_empty : s ≠ ""
  isLetter : ∀ c ∈ s.toList, IsLetter c

/-- The label of a number is the numeral of the next. -/
theorem toList_packingLabel (n : ℕ) : (packingLabel n).toList = numeral (n + 1) :=
  String.toList_ofList

/-- A label is a word. -/
theorem isWord_packingLabel (n : ℕ) : IsWord (packingLabel n) where
  ne_empty h := by
    have hnil : (packingLabel n).toList = [] := congrArg String.toList h
    rw [toList_packingLabel, numeral, label_eq] at hnil
    exact List.append_ne_nil_of_right_ne_nil _ (List.cons_ne_nil _ _) hnil
  isLetter := by
    rw [toList_packingLabel]
    exact isLetter_numeral _

/-- A label stands for the number of its packing. -/
theorem ordinal_packingLabel (n : ℕ) : ordinal (packingLabel n).toList = n + 1 := by
  rw [toList_packingLabel, ordinal_numeral]

/-- No two packings have one label. -/
theorem packingLabel_injective : Function.Injective packingLabel := by
  intro m n h
  have hordinal := congrArg (fun s => ordinal s.toList) h
  simpa [ordinal_packingLabel] using hordinal

/-- A nonempty word is the label of the number before the one that it stands for. -/
theorem packingLabel_ordinal {s : String} (h : IsWord s) :
    packingLabel (ordinal s.toList - 1) = s := by
  refine String.toList_injective ?_
  have hnumeral := numeral_ordinal h.isLetter
  cases hs : ordinal s.toList with
  | zero =>
    rw [hs] at hnumeral
    exact absurd (String.toList_injective hnumeral.symm) h.ne_empty
  | succ n =>
    rw [hs] at hnumeral
    rw [Nat.add_sub_cancel, toList_packingLabel, hnumeral]

/-! ## The numbers of candidates -/

section
variable {α : Type} [Scalar α] {c : Config α} {t : Task α} {j : Journal α} {s : Search α}

/-- The candidates are numbered in the order in which they were found. -/
def Search.Numbered (s : Search α) : Prop :=
  s.candidates.map (·.number) = List.range s.candidates.length

namespace Search.Numbered

/-- A packing that is taken gets the next number. -/
theorem take (h : s.Numbered) (path : BranchPath) (load : Load α) :
    (s.take c t path load).Numbered := by
  -- a note about the node leaves the candidates as they are
  show (s.candidates ++ [_]).map _ = List.range (s.candidates ++ [_]).length
  rw [List.map_append, h, List.length_append, List.length_singleton, List.range_succ]
  rfl

/-- Dealing with a node numbers the packing that it may give. -/
theorem visit (h : s.Numbered) (deeper : Bool) (n : Node) :
    (s.visit c t deeper n).1.Numbered := by
  unfold Search.visit
  split
  · exact h
  · split
    · exact h
    · split
      · exact h.take _ _
      · split <;> exact h

end Search.Numbered

/-- The candidates are numbered in order wherever the loop stands. -/
theorem Loop.Reached.numbered {l : Loop α} (h : l.Reached c t j) : l.search.Numbered := by
  induction h with
  | refl => rfl
  | tail _ hturn ih =>
    cases hturn with
    | interrupted => exact ih
    | @visited front rest s s' children hopen hask hvisit =>
      have hvisited := Search.Numbered.visit (c := c) (t := t) (s := s.asked c) ih
        (decide (front.depth < t.items.length)) front.node
      rwa [hvisit] at hvisited

/-- The candidates of an answer are numbered in order. -/
theorem map_number_state (c : Config α) (prune : Bool) (p : Problem α) (j : Journal α) :
    (solve c prune p j).state.map (·.number) = List.range (solve c prune p j).state.length := by
  unfold solve solveFrom
  split
  · rfl
  · rename_i items capacity _
    obtain ⟨last, hlast, -, hrun⟩ := exists_reaches_run c ⟨items, capacity, prune⟩ j
    have hnumbered := hlast.numbered
    rwa [hrun] at hnumbered

/-- The candidates of an answer have the labels from `A` on. -/
theorem labels_state (c : Config α) (prune : Bool) (p : Problem α) (j : Journal α) :
    (solve c prune p j).state.map (fun k => packingLabel k.number) =
      (List.range (solve c prune p j).state.length).map packingLabel := by
  rw [← map_number_state, List.map_map]
  rfl

end

/-! ## Labels as numbers -/

/-- Labels number the candidates one to one. The label of a number is a nonempty word over the
letters from `A` to `Z`, and it reads as the number after it; every such word is the label of one
number and of no other. Labels are in the order of their numbers, shorter ones first and those of
one length alphabetically. The candidates that a search finds have the labels from `A` on, and no
two of them have the same one. -/
theorem packingLabel_spec :
    (∀ n, IsWord (packingLabel n) ∧ ordinal (packingLabel n).toList = n + 1) ∧
    (∀ s, IsWord s ↔ ∃! n, packingLabel n = s) ∧
    (∀ m n, m < n ↔ (packingLabel m).length < (packingLabel n).length ∨
      (packingLabel m).length = (packingLabel n).length ∧ packingLabel m < packingLabel n) ∧
    ∀ {α : Type} [Scalar α] (c : Config α) (prune : Bool) (p : Problem α) (j : Journal α),
      let found := (solve c prune p j).state
      let labels := found.map fun k => packingLabel k.number
      labels = (List.range found.length).map packingLabel ∧ labels.Nodup := by
  refine ⟨fun n => ⟨isWord_packingLabel n, ordinal_packingLabel n⟩, fun s => ⟨fun h => ?_, ?_⟩,
    fun m n => ?_, ?_⟩
  · exact ⟨_, packingLabel_ordinal h, fun n hn => packingLabel_injective (hn.trans
      (packingLabel_ordinal h).symm)⟩
  · rintro ⟨n, rfl, -⟩
    exact isWord_packingLabel n
  · rw [← Nat.add_lt_add_iff_right (k := 1), ← shortlex_numeral_iff, List.shortlex_def,
      ← toList_packingLabel, ← toList_packingLabel, String.length_toList, String.length_toList,
      String.lt_iff_toList_lt]
    rfl
  · intro α _ c prune p j found labels
    have hlabels : labels = (List.range found.length).map packingLabel := labels_state c prune p j
    refine ⟨hlabels, ?_⟩
    rw [hlabels]
    exact List.nodup_range.map packingLabel_injective

example : [0, 25, 26, 701, 702].map packingLabel = ["A", "Z", "AA", "ZZ", "AAA"] := by cbv

end LinOpt.Knapsack
