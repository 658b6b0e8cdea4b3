import PolishCalc.Text

namespace PolishCalc

/-- A word is not empty and holds no blank. -/
def IsWord (t : String) : Prop :=
  t ≠ "" ∧ ∀ c ∈ t.toList, isBlank c = false

instance (t : String) : Decidable (IsWord t) :=
  decidable_of_iff (t ≠ "" ∧ t.toList.all (fun c => !isBlank c) = true) (by simp [IsWord])

theorem not_isWord_iff {t : String} :
    ¬ IsWord t ↔ t = "" ∨ ∃ c ∈ t.toList, isBlank c = true := by
  by_cases ht : t = "" <;> simp [IsWord, ht]

theorem splitWord_append_blank (x y : List Char) {c : Char} (hc : isBlank c = true) :
    splitWord (x ++ c :: y) = ((splitWord x).1, (splitWord x).2 ++ wordsOf y) := by
  induction x with
  | nil => simp [splitWord, hc, wordsOf]
  | cons d x ih =>
    simp only [List.cons_append, splitWord, ih]
    split
    · simp only [closeWord]
      split <;> simp
    · rfl

/-- A blank cuts a text in two, and each part has its own words. -/
theorem wordsOf_append_blank (x y : List Char) {c : Char} (hc : isBlank c = true) :
    wordsOf (x ++ c :: y) = wordsOf x ++ wordsOf y := by
  rw [wordsOf, splitWord_append_blank x y hc]
  simp only [wordsOf, closeWord]
  split <;> simp

theorem splitWord_of_not_blank {w : List Char} (h : ∀ c ∈ w, isBlank c = false) :
    splitWord w = (w, []) := by
  induction w with
  | nil => rfl
  | cons c w ih => simp [splitWord, h c (by simp), ih (fun d hd => h d (by simp [hd]))]

theorem mem_closeWord {w v : List Char} {ws : List (List Char)} (h : w ∈ closeWord v ws) :
    (w = v ∧ v ≠ []) ∨ w ∈ ws := by
  unfold closeWord at h
  split at h
  next => exact .inr h
  next he =>
    rcases List.mem_cons.mp h with rfl | h
    · exact .inl ⟨rfl, by simpa using he⟩
    · exact .inr h

theorem splitWord_words (cs : List Char) :
    (∀ c ∈ (splitWord cs).1, isBlank c = false) ∧
      ∀ w ∈ (splitWord cs).2, w ≠ [] ∧ ∀ c ∈ w, isBlank c = false := by
  induction cs with
  | nil => simp [splitWord]
  | cons c cs ih =>
    obtain ⟨hfirst, hrest⟩ := ih
    simp only [splitWord]
    split
    next =>
      refine ⟨by simp, ?_⟩
      intro w hm
      rcases mem_closeWord hm with ⟨rfl, hne⟩ | hm
      · exact ⟨hne, hfirst⟩
      · exact hrest w hm
    next hc =>
      refine ⟨?_, hrest⟩
      intro d hd
      rcases List.mem_cons.mp hd with rfl | hd
      · simpa using hc
      · exact hfirst d hd

theorem words_append_space (s u : String) : words (s ++ " " ++ u) = words s ++ words u := by
  have h := wordsOf_append_blank s.toList u.toList (show isBlank ' ' = true by decide)
  simp [words, String.toList_append, h]

theorem words_of_isWord {t : String} (h : IsWord t) : words t = [t] := by
  have hne : t.toList ≠ [] := by simpa using h.1
  simp [words, wordsOf, splitWord_of_not_blank h.2, closeWord, hne]

theorem isWord_of_mem_words {s t : String} (h : t ∈ words s) : IsWord t := by
  obtain ⟨w, hw, rfl⟩ := List.mem_map.mp h
  obtain ⟨hfirst, hrest⟩ := splitWord_words s.toList
  have hword : w ≠ [] ∧ ∀ c ∈ w, isBlank c = false := by
    rcases mem_closeWord hw with ⟨rfl, hne⟩ | hw
    · exact ⟨hne, hfirst⟩
    · exact hrest w hw
  exact ⟨by simpa [← String.toList_inj] using hword.1, by simpa using hword.2⟩

end PolishCalc
