/-!
# Cutting texts

* `pieces` -- the parts of a text between the occurrences of a separator;
* `cutLast` -- the parts before and after the last occurrence of a separator.
-/

namespace Offside.Text

/-- The parts of `text` between the separators; one part if there is no separator. -/
def pieces (separator : Char) : List Char → List (List Char)
  | [] => [[]]
  | c :: rest =>
    if c = separator then [] :: pieces separator rest
    else
      match pieces separator rest with
      | [] => [[c]]
      | first :: others => (c :: first) :: others

/-- The parts before and after the last separator, if there is one. -/
def cutLast (separator : Char) : List Char → Option (List Char × List Char)
  | [] => none
  | c :: rest =>
    match cutLast separator rest with
    | some (before, after) => some (c :: before, after)
    | none => if c = separator then some ([], rest) else none

theorem eq_append_of_cutLast {separator : Char} {text before after : List Char}
    (h : cutLast separator text = some (before, after)) :
    text = before ++ separator :: after := by
  induction text generalizing before with
  | nil => simp [cutLast] at h
  | cons c rest ih =>
    rw [cutLast] at h
    split at h
    · rename_i b a hb
      simp only [Option.some.injEq, Prod.mk.injEq] at h
      obtain ⟨rfl, rfl⟩ := h
      rw [ih hb, List.cons_append]
    · split at h
      · rename_i hc
        simp only [Option.some.injEq, Prod.mk.injEq] at h
        obtain ⟨rfl, rfl⟩ := h
        rw [hc, List.nil_append]
      · simp at h

end Offside.Text
