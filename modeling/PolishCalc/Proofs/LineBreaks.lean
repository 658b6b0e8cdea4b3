import PolishCalc.Text

namespace PolishCalc

theorem isBlank_of_isLineBreak {c : Char} (h : isLineBreak c = true) : isBlank c = true := by
  simp only [isLineBreak, isBlank, Bool.or_eq_true, Bool.and_eq_true, decide_eq_true_eq,
    beq_iff_eq] at h ⊢
  omega

theorem linesOf_cons_of_not_break {c : Char} (hc : isLineBreak c = false) (cs : List Char) :
    linesOf (c :: cs) = consLine c (linesOf cs) := by
  have hr : c ≠ '\r' := by
    rintro rfl
    exact absurd hc (by decide)
  rw [linesOf]
  · simp [hc]
  · intro _ h
    exact absurd h hr

theorem linesOf_append_newline {l : List Char} (unbroken : ∀ c ∈ l, isLineBreak c = false)
    (cs : List Char) : linesOf (l ++ '\n' :: cs) = l :: linesOf cs := by
  induction l with
  | nil =>
    rw [List.nil_append, linesOf]
    · rw [if_pos (by decide)]
    · intro _ h
      exact absurd h (by decide)
  | cons c l ih =>
    rw [List.cons_append, linesOf_cons_of_not_break (unbroken c (by simp)),
      ih (fun d hd => unbroken d (by simp [hd]))]
    rfl

theorem linesOf_of_unbroken {l : List Char} (unbroken : ∀ c ∈ l, isLineBreak c = false)
    (hne : l ≠ []) : linesOf l = [l] := by
  induction l with
  | nil => exact absurd rfl hne
  | cons c l ih =>
    rw [linesOf_cons_of_not_break (unbroken c (by simp))]
    cases l with
    | nil => simp [linesOf, consLine]
    | cons d l => rw [ih (fun e he => unbroken e (by simp [he])) (by simp)]; rfl

/-- Lines without line ends in them can be joined and split again, if the last is not empty. -/
theorem linesOf_intercalate {ls : List (List Char)}
    (unbroken : ∀ l ∈ ls, ∀ c ∈ l, isLineBreak c = false) (last : ls.getLast? ≠ some []) :
    linesOf (['\n'].intercalate ls) = ls := by
  induction ls with
  | nil => simp [linesOf]
  | cons l ls ih =>
    have hl := unbroken l (by simp)
    cases ls with
    | nil =>
      rw [List.intercalate_singleton]
      exact linesOf_of_unbroken hl (by simpa using last)
    | cons l' ls =>
      have hjoin :
          ['\n'].intercalate (l :: l' :: ls) = l ++ '\n' :: ['\n'].intercalate (l' :: ls) := by
        simp [List.intercalate_cons_cons]
      have hrest := ih (fun k hk => unbroken k (by simp [hk])) (by simpa using last)
      rw [hjoin, linesOf_append_newline hl, hrest]

/-- An empty last line is lost: the text ends with the line end in front of it. -/
theorem linesOf_intercalate_empty {ls : List (List Char)}
    (unbroken : ∀ l ∈ ls, ∀ c ∈ l, isLineBreak c = false) :
    linesOf (['\n'].intercalate (ls ++ [[]])) = ls := by
  induction ls with
  | nil => rfl
  | cons l ls ih =>
    have hjoin : ['\n'].intercalate (l :: ls ++ [[]]) =
        l ++ '\n' :: ['\n'].intercalate (ls ++ [[]]) := by
      cases ls <;> simp [List.intercalate_cons_cons]
    have hrest := ih (fun k hk => unbroken k (by simp [hk]))
    rw [hjoin, linesOf_append_newline (unbroken l (by simp)), hrest]

theorem textLines_joinLines_of_split {ls ks : List String}
    (hsplit : linesOf (['\n'].intercalate (ls.map String.toList)) = ks.map String.toList) :
    textLines (joinLines ls) = ks := by
  rw [textLines, joinLines, String.toList_intercalate]
  change (linesOf (['\n'].intercalate (ls.map String.toList))).map String.ofList = ks
  rw [hsplit, List.map_map]
  exact List.map_id'' (fun s => String.ofList_toList) ks

theorem textLines_joinLines {ls : List String}
    (unbroken : ∀ l ∈ ls, ∀ c ∈ l.toList, isLineBreak c = false) (last : ls.getLast? ≠ some "") :
    textLines (joinLines ls) = ls := by
  have hlast : (ls.map String.toList).getLast? ≠ some [] := by
    simpa [List.getLast?_map] using last
  exact textLines_joinLines_of_split (linesOf_intercalate (by simpa using unbroken) hlast)

theorem textLines_joinLines_empty {ls : List String}
    (unbroken : ∀ l ∈ ls, ∀ c ∈ l.toList, isLineBreak c = false) :
    textLines (joinLines (ls ++ [""])) = ls := by
  apply textLines_joinLines_of_split
  rw [List.map_append]
  exact linesOf_intercalate_empty (by simpa using unbroken)

end PolishCalc
