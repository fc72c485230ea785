/-!
Path names with `/` between their components. Only the text is looked at.
-/

namespace Stepwise.Text.PathName

private def splitSlash (read : List Char) : List Char → List String
  | [] => [String.ofList read.reverse]
  | c :: rest =>
    if c = '/' then String.ofList read.reverse :: splitSlash [] rest
    else splitSlash (c :: read) rest

/-- The last component; slashes and `.` components at the end are passed over. -/
def lastComponent? (path : String) : Option String :=
  ((splitSlash [] path.toList).filter fun part => part != "" && part != ".").getLast?

private theorem splitSlash_of_no_slash {cs : List Char} (h : '/' ∉ cs) : ∀ read,
    splitSlash read cs = [String.ofList (read.reverse ++ cs)] := by
  induction cs with
  | nil => exact fun read => by rw [splitSlash, List.append_nil]
  | cons c rest ih =>
      intro read
      rw [List.mem_cons, not_or] at h
      rw [splitSlash, if_neg (Ne.symm h.1), ih h.2, List.reverse_cons, List.append_assoc,
        List.singleton_append]

/-- A name without slashes is its own last component. -/
theorem lastComponent?_of_no_slash {name : String} (h : '/' ∉ name.toList) (hSome : name ≠ "")
    (hDot : name ≠ ".") : lastComponent? name = some name := by
  rw [lastComponent?, splitSlash_of_no_slash h, List.reverse_nil, List.nil_append, String.ofList_toList]
  simp [hSome, hDot]

/-- What follows the last dot of the last component. A component that starts with its only dot has no
extension, nor has `..`. -/
def extension? (path : String) : Option String :=
  match lastComponent? path with
  | none | some ".." => none
  | some name =>
    let backwards := name.toList.reverse
    let ending := backwards.takeWhile (· != '.')
    match backwards.drop ending.length with
    | [] | ['.'] => none
    | _ => some (String.ofList ending.reverse)

/-- What follows the last dot of a name is its extension if the name does not start there. -/
theorem extension?_of_no_slash {stem ending : List Char} (hSlash : '/' ∉ stem ++ '.' :: ending)
    (hStem : stem ≠ []) (hEnding : ending ≠ []) (hDot : '.' ∉ ending) :
    extension? (String.ofList (stem ++ '.' :: ending)) = some (String.ofList ending) := by
  -- The ending has a character that is no dot, so the name is neither empty nor `.` nor `..`.
  have hName : ∀ {name : String}, (∀ c ∈ name.toList, c = '.') →
      String.ofList (stem ++ '.' :: ending) ≠ name := by
    rintro name hDots rfl
    rw [String.toList_ofList] at hDots
    obtain ⟨c, hc⟩ := List.exists_mem_of_ne_nil _ hEnding
    exact hDot (hDots c (by simp [hc]) ▸ hc)
  have hBackwards : (stem ++ '.' :: ending).reverse = ending.reverse ++ '.' :: stem.reverse := by simp
  have hTaken : (ending.reverse ++ '.' :: stem.reverse).takeWhile (· != '.') = ending.reverse := by
    have hOther : ∀ c ∈ ending.reverse, (c != '.') = true := by
      intro c hc
      rw [bne_iff_ne]
      rintro rfl
      exact hDot (List.mem_reverse.mp hc)
    rw [List.takeWhile_append_of_pos hOther]
    simp
  rw [extension?, lastComponent?_of_no_slash (by rwa [String.toList_ofList]) (hName (by simp))
    (hName (by simp))]
  split
  case h_1 heq => cases heq
  case h_2 heq => exact absurd (Option.some.inj heq) (hName (by simp))
  case h_3 heq =>
    cases heq
    simp only [String.toList_ofList, hBackwards, hTaken, List.drop_left, List.reverse_reverse]
    split
    case h_1 h => cases h
    case h_2 h => exact absurd (List.reverse_eq_nil_iff.mp (List.cons.inj h).2) hStem
    case h_3 => rfl

/-- The path below another one; an absolute path stands for itself. -/
def join (base path : String) : String :=
  if path.startsWith "/" then path
  else if base.isEmpty || base.endsWith "/" then base ++ path
  else base ++ "/" ++ path

end Stepwise.Text.PathName
