import Mathlib.Data.List.Infix
import Mathlib.Data.Nat.Digits.Defs

/-!
# Words in formatted texts

`Says text word` if the characters of the word stand in the text in a row, upper-case letters of the
text read as lower-case ones. A program that looks for words in its own messages relies on what they
do not say: `Silent words text` if none of the words is there.

A message is made of fixed pieces with numbers in between. An element that the word does not have cuts
a list in two (`infix_append_cons`), so a word without digits is in such a message only if it is in one
of the pieces (`silent_nat`).
-/

namespace Lib

section sep

variable {α : Type*} {p a b : List α}

theorem infix_append_cons {x : α} (hx : x ∉ p) (h : p <:+: a ++ x :: b) : p <:+: a ∨ p <:+: b := by
  induction a with
  | nil =>
    rcases List.infix_cons_iff.mp h with hpre | hrest
    · cases p with
      | nil => exact .inl List.nil_infix
      | cons y p =>
        obtain ⟨rfl, -⟩ := List.cons_prefix_cons.mp hpre
        exact absurd List.mem_cons_self hx
    · exact .inr hrest
  | cons y a ih =>
    rcases List.infix_cons_iff.mp h with hpre | hrest
    · rcases List.prefix_or_prefix_of_prefix hpre (List.prefix_append (y :: a) (x :: b)) with hp | hp
      · exact .inl hp.isInfix
      · -- the word goes on behind `y :: a`, and can only go on with `x`
        obtain ⟨rest, rfl⟩ := hp
        have hrest : rest <+: x :: b := (List.prefix_append_right_inj (y :: a)).mp hpre
        cases rest with
        | nil => exact .inl (by rw [List.append_nil])
        | cons z rest =>
          obtain ⟨rfl, -⟩ := List.cons_prefix_cons.mp hrest
          exact absurd (List.mem_append_right _ List.mem_cons_self) hx
    · exact (ih hrest).imp List.infix_cons id

theorem infix_append_sep {d : List α} (hd : ∀ x ∈ d, x ∉ p) (hne : d ≠ []) (h : p <:+: a ++ d ++ b) :
    p <:+: a ∨ p <:+: b := by
  induction d generalizing a with
  | nil => exact absurd rfl hne
  | cons x d ih =>
    rw [List.append_assoc, List.cons_append] at h
    rcases infix_append_cons (hd x List.mem_cons_self) h with hp | hp
    · exact .inl hp
    · cases d with
      | nil => exact .inr hp
      | cons y d =>
        have hp' := ih (a := []) (fun z hz => hd z (List.mem_cons_of_mem x hz)) (List.cons_ne_nil y d) hp
        refine hp'.imp (fun hnil => ?_) id
        rw [List.infix_nil.mp hnil]
        exact List.nil_infix

end sep

def Says (text word : String) : Prop := word.toList <:+: text.toLower.toList

theorem says_iff {text word : String} :
    Says text word ↔ word.toList <:+: text.toList.map Char.toLower := by
  show word.toList <:+: (String.map Char.toLower text).toList ↔ _
  rw [String.toList_map]

instance (text word : String) : Decidable (Says text word) := decidable_of_iff _ says_iff.symm

def Silent (words : List String) (text : String) : Prop := ∀ word ∈ words, ¬ Says text word

instance (words : List String) (text : String) : Decidable (Silent words text) :=
  List.decidableBAll (fun word => ¬ Says text word) words

def NoDigit (word : String) : Prop := ∀ c ∈ word.toList, c.isDigit = false

instance (word : String) : Decidable (NoDigit word) :=
  List.decidableBAll (fun c : Char => c.isDigit = false) word.toList

/-- No word has a digit. -/
def NoDigits (words : List String) : Prop := ∀ word ∈ words, NoDigit word

instance (words : List String) : Decidable (NoDigits words) := List.decidableBAll NoDigit words

theorem toLower_of_isDigit {c : Char} (h : c.isDigit = true) : c.toLower = c := by
  simp only [Char.isDigit, Bool.and_eq_true, decide_eq_true_eq] at h
  have hle : c.val.toNat ≤ 57 := UInt32.le_iff_toNat_le.mp h.2
  unfold Char.toLower
  split
  · rename_i hupper
    have hge : 65 ≤ c.val.toNat := UInt32.le_iff_toNat_le.mp hupper.1
    omega
  · rfl

theorem silent_nat {words : List String} (hwords : NoDigits words) {a b : String}
    (ha : Silent words a) (hb : Silent words b) (n : Nat) : Silent words (a ++ toString n ++ b) := by
  intro word hword hsays
  have hlower : (a ++ toString n ++ b).toList.map Char.toLower = a.toList.map Char.toLower ++
      (Nat.toDigits 10 n).map Char.toLower ++ b.toList.map Char.toLower := by
    simp
  have hdigit : ∀ c ∈ (Nat.toDigits 10 n).map Char.toLower, c.isDigit = true := by
    intro c hc
    obtain ⟨d, hd, rfl⟩ := List.mem_map.mp hc
    have hdigit := Nat.isDigit_of_mem_toDigits (by decide) (by decide) hd
    rw [toLower_of_isDigit hdigit]
    exact hdigit
  rw [says_iff, hlower] at hsays
  refine (infix_append_sep (fun c hc hmem => ?_) ?_ hsays).elim (fun h => ha word hword (says_iff.mpr h))
    fun h => hb word hword (says_iff.mpr h)
  · have htrue := hdigit c hc
    rw [hwords word hword c hmem] at htrue
    cases htrue
  · rw [ne_eq, List.map_eq_nil_iff]
    exact Nat.toDigits_ne_nil

/-! ## The debug form of a text -/

/-- A character as `{:?}` writes it inside quotes. Those beyond Latin-1 are kept; the few of them that are
not printable would be escaped as well. -/
def debugChar (ch : Char) : String :=
  if ch.toNat = 34 then "\\\""
  else if ch.toNat = 92 then "\\\\"
  else if ch.toNat = 0 then "\\0"
  else if ch.toNat = 9 then "\\t"
  else if ch.toNat = 10 then "\\n"
  else if ch.toNat = 13 then "\\r"
  else if ch.toNat < 32 ∨ (127 ≤ ch.toNat ∧ ch.toNat < 160) ∨ ch.toNat = 173 then
    "\\u\x7b" ++ String.ofList (Nat.toDigits 16 ch.toNat) ++ "\x7d"
  else String.ofList [ch]

/-- `{:?}` of a `str`. -/
def debugStr (s : String) : String := "\"" ++ String.join (s.toList.map debugChar) ++ "\""

example : debugStr "a\t\"b\x01" = "\"a\\t\\\"b\\u\x7b1\x7d\"" := by decide

end Lib
