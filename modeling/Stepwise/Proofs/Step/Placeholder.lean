import Stepwise.Proofs.Guard.Spelling
import Stepwise.Step.Prompt

/-! Placeholders in a text. A placeholder is read exactly where one stands: braces around a root and keys, each
key an identifier behind a dot. Only one begins in a place, and none begins within another one, since the only
opening brace of a placeholder is its first character. -/
namespace Stepwise.Prompt

open Guard (spelledKeys)

/-! ### Identifiers -/

/-- An ASCII letter or an underscore, and behind it ASCII letters, digits and underscores. -/
def IsIdentifier : List Char → Prop
  | [] => False
  | c :: rest => (c.isAlpha = true ∨ c = '_') ∧ ∀ d ∈ rest, d.isAlphanum = true ∨ d = '_'

instance : DecidablePred IsIdentifier
  | [] => inferInstanceAs (Decidable False)
  | _ :: rest => @instDecidableAnd _ _ inferInstance (List.decidableBAll _ rest)

theorem isKeyStart_iff (c : Char) : isKeyStart c = true ↔ c.isAlpha = true ∨ c = '_' := by
  have hUpper : c.isUpper = ('A' ≤ c && c ≤ 'Z') := Bool.decide_and _ _
  have hAlpha : c.isAlpha = ('A' ≤ c && c ≤ 'Z' || 'a' ≤ c && c ≤ 'z') := hUpper ▸ rfl
  rw [isKeyStart, Bool.or_eq_true, Bool.or_comm, ← hAlpha, beq_iff_eq]

theorem isKeyPart_iff (d : Char) : isKeyPart d = true ↔ d.isAlphanum = true ∨ d = '_' := by
  have hAlphanum : (d.isAlpha || '0' ≤ d && d ≤ '9') = d.isAlphanum := rfl
  rw [isKeyPart, Bool.or_eq_true, isKeyStart_iff, ← hAlphanum, Bool.or_eq_true, or_right_comm]

theorem isKeyPart_of_isKeyStart {c : Char} (h : isKeyStart c = true) : isKeyPart c = true := by
  rw [isKeyPart, h, Bool.true_or]

/-- No identifier holds a brace or a dot. -/
theorem ne_of_isKeyPart {d : Char} (h : isKeyPart d = true) : d ≠ '\x7b' ∧ d ≠ '\x7d' ∧ d ≠ '.' := by
  refine ⟨?_, ?_, ?_⟩ <;>
  · rintro rfl
    exact absurd h (by decide)

theorem isIdentifier_append_iff {key more : List Char} (hKey : key ≠ []) :
    IsIdentifier (key ++ more) ↔ IsIdentifier key ∧ ∀ d ∈ more, isKeyPart d = true := by
  obtain ⟨c, key, rfl⟩ := List.exists_cons_of_ne_nil hKey
  simp only [List.cons_append, IsIdentifier, List.forall_mem_append, isKeyPart_iff, and_assoc]

theorem IsIdentifier.isKeyPart {key : List Char} (h : IsIdentifier key) {d : Char} (hd : d ∈ key) :
    isKeyPart d = true := by
  cases key with
  | nil => cases h
  | cons c key =>
      rcases List.mem_cons.mp hd with rfl | hd
      · exact isKeyPart_of_isKeyStart ((isKeyStart_iff d).mpr h.1)
      · exact (isKeyPart_iff d).mpr (h.2 d hd)

theorem IsIdentifier.reverse_ne_nil {key : List Char} (h : IsIdentifier key) : key.reverse ≠ [] := by
  intro hNil
  rw [List.reverse_eq_nil_iff.mp hNil] at h
  cases h

/-! ### Spelling a placeholder -/

theorem toList_intercalate_dot (first : String) (keys : List String) :
    (".".intercalate (first :: keys)).toList = first.toList ++ spelledKeys keys := by
  induction keys generalizing first with
  | nil => simp [spelledKeys]
  | cons key keys ih =>
      rw [String.intercalate_cons_cons, String.toList_append, String.toList_append, ih]
      simp [spelledKeys]

theorem toList_placeholderText (root : Root) (keys : List String) :
    (placeholderText root keys).toList =
      '\x7b' :: (root.name.toList ++ (spelledKeys keys ++ ['\x7d'])) := by
  rw [placeholderText, String.toList_append, String.toList_append, toList_intercalate_dot]
  simp

/-! ### Reading a placeholder -/

section

variable {keys : List String} {key rest text : List Char}

theorem keys?_close (hBegun : key ≠ []) :
    keys? (some key) ('\x7d' :: rest) = some ([String.ofList key.reverse], rest) := by
  obtain ⟨c, key, rfl⟩ := List.exists_cons_of_ne_nil hBegun
  rfl

theorem keys?_dot (hBegun : key ≠ []) (text : List Char) :
    keys? (some key) ('.' :: text) =
      (keys? (some []) text).map fun (keys, rest) => (String.ofList key.reverse :: keys, rest) := by
  obtain ⟨c, key, rfl⟩ := List.exists_cons_of_ne_nil hBegun
  rfl

theorem keys?_start {c : Char} (hStart : isKeyStart c = true) (text : List Char) :
    keys? (some []) (c :: text) = keys? (some [c]) text := by
  obtain ⟨-, hBrace, hDot⟩ := ne_of_isKeyPart (isKeyPart_of_isKeyStart hStart)
  rw [keys?.eq_def]
  simp only [hStart, if_true]

theorem keys?_part {d : Char} (hBegun : key ≠ []) (hPart : isKeyPart d = true) (text : List Char) :
    keys? (some key) (d :: text) = keys? (some (d :: key)) text := by
  obtain ⟨c, key, rfl⟩ := List.exists_cons_of_ne_nil hBegun
  obtain ⟨-, hBrace, hDot⟩ := ne_of_isKeyPart hPart
  rw [keys?.eq_def]
  simp only [hPart, if_true]

theorem keys?_parts (hBegun : key ≠ []) {more : List Char} (hMore : ∀ d ∈ more, isKeyPart d = true)
    (text : List Char) : keys? (some key) (more ++ text) = keys? (some (more.reverse ++ key)) text := by
  induction more generalizing key with
  | nil => rfl
  | cons d more ih =>
      obtain ⟨hPart, hMore⟩ := List.forall_mem_cons.mp hMore
      rw [List.cons_append, keys?_part hBegun hPart, ih (List.cons_ne_nil d key) hMore, List.reverse_cons,
        List.append_assoc, List.singleton_append]

theorem keys?_identifier (hKey : IsIdentifier key) (text : List Char) :
    keys? (some []) (key ++ text) = keys? (some key.reverse) text := by
  cases key with
  | nil => cases hKey
  | cons c key =>
      rw [List.cons_append, keys?_start ((isKeyStart_iff c).mpr hKey.1),
        keys?_parts (List.cons_ne_nil c []) (fun d hd => (isKeyPart_iff d).mpr (hKey.2 d hd)),
        List.reverse_cons]

/-- The keys behind a dot are read as they are spelled. -/
theorem keys?_behind_dot {key : String} (hKey : IsIdentifier key.toList)
    (hKeys : ∀ key ∈ keys, IsIdentifier key.toList) (rest : List Char) :
    keys? (some []) (key.toList ++ (spelledKeys keys ++ '\x7d' :: rest)) = some (key :: keys, rest) := by
  induction keys generalizing key with
  | nil =>
      rw [keys?_identifier hKey, spelledKeys, List.flatMap_nil, List.nil_append,
        keys?_close hKey.reverse_ne_nil, List.reverse_reverse, String.ofList_toList]
  | cons next keys ih =>
      obtain ⟨hNext, hKeys⟩ := List.forall_mem_cons.mp hKeys
      rw [keys?_identifier hKey, spelledKeys, List.flatMap_cons, List.append_assoc, List.cons_append,
        keys?_dot hKey.reverse_ne_nil, ← spelledKeys, ih hNext hKeys, List.reverse_reverse,
        String.ofList_toList]
      rfl

theorem keys?_spelledKeys (hKeys : ∀ key ∈ keys, IsIdentifier key.toList) (rest : List Char) :
    keys? none (spelledKeys keys ++ '\x7d' :: rest) = some (keys, rest) := by
  cases keys with
  | nil => rfl
  | cons key keys =>
      obtain ⟨hKey, hKeys⟩ := List.forall_mem_cons.mp hKeys
      rw [spelledKeys, List.flatMap_cons, List.append_assoc]
      exact keys?_behind_dot hKey hKeys rest

/-- What is left of the keys of a placeholder, after some characters of the first one if it has begun. -/
inductive Completes : Option (List Char) → List String → List Char → Prop where
  | all {keys : List String} (hKeys : ∀ key ∈ keys, IsIdentifier key.toList) :
      Completes none keys (spelledKeys keys)
  | begun {read more : List Char} {keys : List String} (hKey : IsIdentifier (read.reverse ++ more))
      (hKeys : ∀ key ∈ keys, IsIdentifier key.toList) :
      Completes (some read) (String.ofList (read.reverse ++ more) :: keys) (more ++ spelledKeys keys)

theorem Completes.cons {c : Char} {read front : List Char} (h : Completes (some (c :: read)) keys front) :
    Completes (some read) keys (c :: front) := by
  generalize hBegun : c :: read = begun at h
  cases h with
  | begun hKey hKeys =>
      subst hBegun
      rw [List.reverse_cons, List.append_assoc] at hKey ⊢
      exact .begun hKey hKeys

/-- A key before which nothing was read stands behind its dot. -/
theorem Completes.dot {front : List Char} (h : Completes (some []) keys front) :
    (∀ key ∈ keys, IsIdentifier key.toList) ∧ spelledKeys keys = '.' :: front := by
  generalize hBegun : ([] : List Char) = begun at h
  cases h with
  | begun hKey hKeys =>
      subst hBegun
      refine ⟨List.forall_mem_cons.mpr ⟨?_, hKeys⟩, ?_⟩
      · rwa [String.toList_ofList]
      · rw [spelledKeys, List.flatMap_cons, String.toList_ofList]
        rfl

/-- The characters that are read up to the closing brace complete the keys. -/
theorem completes_of_keys? {read : Option (List Char)}
    (hRead : ∀ key ∈ read, key = [] ∨ IsIdentifier key.reverse) (h : keys? read text = some (keys, rest)) :
    ∃ front, text = front ++ '\x7d' :: rest ∧ Completes read keys front := by
  -- the key that is being read is empty or an identifier so far; the other cases read nothing
  fun_induction keys? read text generalizing keys with
  | case1 | case3 | case6 | case9 | case11 | case12 => cases h
  | case2 rest =>
      cases h
      exact ⟨[], rfl, .all (List.forall_mem_nil _)⟩
  | case4 rest key hBegun =>
      cases h
      have hKey := (hRead key rfl).resolve_left hBegun
      rw [← List.append_nil key.reverse] at hKey ⊢
      exact ⟨[], rfl, .begun hKey (List.forall_mem_nil _)⟩
  | case5 text ih =>
      obtain ⟨front, rfl, hFront⟩ := ih (by simp) h
      obtain ⟨hKeys, hSpelled⟩ := hFront.dot
      exact ⟨'.' :: front, rfl, hSpelled ▸ .all hKeys⟩
  | case7 text key hBegun ih =>
      obtain ⟨⟨others, rest'⟩, hOthers, hEq⟩ := Option.map_eq_some_iff.mp h
      cases hEq
      obtain ⟨front, rfl, hFront⟩ := ih (by simp) hOthers
      obtain ⟨hKeys, hSpelled⟩ := hFront.dot
      have hKey := (hRead key rfl).resolve_left hBegun
      rw [← List.append_nil key.reverse] at hKey ⊢
      refine ⟨'.' :: front, rfl, ?_⟩
      rw [← hSpelled]
      exact .begun hKey hKeys
  | case8 c text _ _ hStart ih =>
      have hKey : IsIdentifier [c] := ⟨(isKeyStart_iff c).mp hStart, List.forall_mem_nil _⟩
      obtain ⟨front, rfl, hFront⟩ := ih (by simpa using hKey) h
      exact ⟨c :: front, rfl, hFront.cons⟩
  | case10 c text _ _ key hBegun hPart ih =>
      have hKey : IsIdentifier (c :: key).reverse := by
        rw [List.reverse_cons, isIdentifier_append_iff (by simpa using hBegun)]
        exact ⟨(hRead key rfl).resolve_left hBegun, List.forall_mem_singleton.mpr hPart⟩
      obtain ⟨front, rfl, hFront⟩ := ih (by simpa using hKey) h
      exact ⟨c :: front, rfl, hFront.cons⟩

theorem keys?_none_eq_some_iff :
    keys? none text = some (keys, rest) ↔
      (∀ key ∈ keys, IsIdentifier key.toList) ∧ text = spelledKeys keys ++ '\x7d' :: rest := by
  constructor
  · intro h
    obtain ⟨front, rfl, hFront⟩ := completes_of_keys? (by simp) h
    cases hFront with
    | all hKeys => exact ⟨hKeys, rfl⟩
  · rintro ⟨hKeys, rfl⟩
    exact keys?_spelledKeys hKeys rest

theorem afterName?_eq_some_iff {root : Root} {piece : Piece} :
    afterName? root text = some (piece, rest) ↔
      ∃ keys, piece = .placeholder root keys ∧ (∀ key ∈ keys, IsIdentifier key.toList) ∧
        text = root.name.toList ++ (spelledKeys keys ++ '\x7d' :: rest) := by
  unfold afterName?
  dsimp only
  constructor
  · intro h
    split_ifs at h with hName
    obtain ⟨⟨keys, rest'⟩, hKeys, hEq⟩ := Option.map_eq_some_iff.mp h
    cases hEq
    obtain ⟨hKeys, hText⟩ := keys?_none_eq_some_iff.mp hKeys
    refine ⟨keys, rfl, hKeys, ?_⟩
    calc text = text.take root.name.toList.length ++ text.drop root.name.toList.length :=
          (List.take_append_drop _ _).symm
      _ = root.name.toList ++ (spelledKeys keys ++ '\x7d' :: rest') := by rw [hName, hText]
  · rintro ⟨keys, rfl, hKeys, rfl⟩
    rw [if_pos List.take_left, List.drop_left, keys?_spelledKeys hKeys]
    rfl

/-- The names of the roots differ in their first characters. -/
theorem root_eq_of_name_append {root root' : Root} {more more' : List Char}
    (h : root.name.toList ++ more = root'.name.toList ++ more') : root = root' := by
  cases root <;> cases root' <;> first | rfl | simp [Root.name] at h

/-- A placeholder is read exactly where one stands. -/
theorem placeholder?_eq_some_iff {piece : Piece} :
    placeholder? text = some (piece, rest) ↔
      ∃ root keys, piece = .placeholder root keys ∧ (∀ key ∈ keys, IsIdentifier key.toList) ∧
        '\x7b' :: text = (placeholderText root keys).toList ++ rest := by
  simp only [toList_placeholderText, List.cons_append, List.append_assoc, List.cons.injEq, true_and,
    List.nil_append]
  constructor
  · intro h
    obtain ⟨root, -, hRoot⟩ := List.exists_of_findSome?_eq_some h
    obtain ⟨keys, hPiece, hKeys, hText⟩ := afterName?_eq_some_iff.mp hRoot
    exact ⟨root, keys, hPiece, hKeys, hText⟩
  · rintro ⟨root, keys, rfl, hKeys, hText⟩
    have hFound : afterName? root text = some (.placeholder root keys, rest) :=
      afterName?_eq_some_iff.mpr ⟨keys, rfl, hKeys, hText⟩
    have hOnly (root' : Root) (hOther : root' ≠ root) : afterName? root' text = none := by
      refine Option.eq_none_iff_forall_ne_some.mpr fun found hSome => hOther ?_
      obtain ⟨keys', -, -, hText'⟩ := afterName?_eq_some_iff.mp hSome
      exact root_eq_of_name_append (hText'.symm.trans hText)
    rw [placeholder?]
    cases root <;> simp [hFound, hOnly]

end

/-! ### The placeholders of a text -/

/-- A place in a text where a placeholder stands. -/
structure Occurrence (text : List Char) where
  before : List Char
  root : Root
  keys : List String
  after : List Char
  identifiers : ∀ key ∈ keys, IsIdentifier key.toList
  spells : before ++ ((placeholderText root keys).toList ++ after) = text

namespace Occurrence

variable {text : List Char}

def start (o : Occurrence text) : Nat :=
  o.before.length

/-- The place behind the closing brace. -/
def stop (o : Occurrence text) : Nat :=
  o.before.length + (placeholderText o.root o.keys).length

def prepend (front : List Char) (o : Occurrence text) : Occurrence (front ++ text) :=
  { o with before := front ++ o.before, spells := by rw [List.append_assoc, o.spells] }

theorem start_lt_stop (o : Occurrence text) : o.start < o.stop := by
  rw [start, stop, ← String.length_toList, toList_placeholderText, List.length_cons]
  omega

/-- A placeholder that begins behind some text is one of what follows. -/
theorem exists_prepend (front : List Char) (o : Occurrence (front ++ text)) (h : front.length ≤ o.start) :
    ∃ o' : Occurrence text, o = o'.prepend front := by
  obtain ⟨before, root, keys, after, hKeys, hText⟩ := o
  obtain ⟨more, rfl⟩ : front <+: before := List.prefix_of_prefix_length_le ⟨_, rfl⟩ ⟨_, hText⟩ h
  rw [List.append_assoc] at hText
  exact ⟨⟨more, root, keys, after, hKeys, List.append_cancel_left hText⟩, rfl⟩

/-- The first brace of a placeholder is its only opening one. -/
theorem not_mem_brace (o : Occurrence text) :
    '\x7b' ∉ o.root.name.toList ++ (spelledKeys o.keys ++ ['\x7d']) := by
  simp only [List.mem_append, not_or]
  refine ⟨?_, ?_, by decide⟩
  · cases o.root <;> decide
  · intro hMem
    obtain ⟨key, hKey, hMem⟩ := List.mem_flatMap.mp hMem
    rcases List.mem_cons.mp hMem with hDot | hMem
    · cases hDot
    · exact (ne_of_isKeyPart ((o.identifiers key hKey).isKeyPart hMem)).1 rfl

/-- Only one placeholder begins in a place. -/
theorem eq_of_before_eq {o o' : Occurrence text} (h : o.before = o'.before) : o = o' := by
  obtain ⟨before, root, keys, after, hKeys, hText⟩ := o
  obtain ⟨_, root', keys', after', hKeys', hText'⟩ := o'
  cases h
  have hSame := List.append_cancel_left (hText.trans hText'.symm)
  obtain ⟨rest, hRest⟩ : ∃ rest, '\x7b' :: rest = (placeholderText root keys).toList ++ after := by
    rw [toList_placeholderText]
    exact ⟨_, rfl⟩
  have hRead := placeholder?_eq_some_iff.mpr ⟨root, keys, rfl, hKeys, hRest⟩
  have hRead' := placeholder?_eq_some_iff.mpr ⟨root', keys', rfl, hKeys', hRest.trans hSame⟩
  cases hRead.symm.trans hRead'
  rfl

/-- Where a text begins with a placeholder, that placeholder is read. -/
theorem read_eq {c : Char} (o : Occurrence (c :: text)) (h : o.before = []) :
    c = '\x7b' ∧ placeholder? text = some (.placeholder o.root o.keys, o.after) := by
  obtain ⟨_, root, keys, after, hKeys, hText⟩ := o
  cases h
  have hBrace : c = '\x7b' := by
    rw [toList_placeholderText] at hText
    exact (List.cons.inj hText).1.symm
  subst hBrace
  exact ⟨rfl, placeholder?_eq_some_iff.mpr ⟨root, keys, rfl, hKeys, hText.symm⟩⟩

/-- No placeholder begins within another one. -/
theorem eq_of_within {o o' : Occurrence text} (hStart : o.start ≤ o'.start) (hStop : o'.start < o.stop) :
    o = o' := by
  obtain ⟨front, hFront⟩ : o.before <+: o'.before :=
    List.prefix_of_prefix_length_le ⟨_, o.spells⟩ ⟨_, o'.spells⟩ hStart
  have hTexts : o.before ++ ((placeholderText o.root o.keys).toList ++ o.after) =
      o.before ++ (front ++ ((placeholderText o'.root o'.keys).toList ++ o'.after)) := by
    rw [o.spells, ← List.append_assoc, hFront, o'.spells]
  have hSame := List.append_cancel_left hTexts
  rcases front with _ | ⟨c, front⟩
  · exact eq_of_before_eq (by rw [← hFront, List.append_nil])
  · have hWithin : front.length < (o.root.name.toList ++ (spelledKeys o.keys ++ ['\x7d'])).length := by
      rw [stop, start, ← hFront, List.length_append, ← String.length_toList, toList_placeholderText] at hStop
      simp only [List.length_cons] at hStop
      omega
    rw [toList_placeholderText, toList_placeholderText o'.root] at hSame
    -- the second brace would stand among the characters behind the first
    rcases List.append_eq_append_iff.mp (List.cons.inj hSame).2 with ⟨more, hMore, -⟩ | ⟨more, hInner, hMore⟩
    · rw [hMore, List.length_append] at hWithin
      omega
    · rcases more with _ | ⟨d, more⟩
      · rw [hInner, List.append_nil] at hWithin
        omega
      · cases (List.cons.inj hMore).1
        exact absurd (hInner ▸ List.mem_append_right _ List.mem_cons_self) o.not_mem_brace

/-- Two placeholders do not overlap. -/
theorem disjoint (o o' : Occurrence text) : o = o' ∨ o.stop ≤ o'.start ∨ o'.stop ≤ o.start := by
  rcases Nat.le_total o.start o'.start with hStart | hStart
  · rcases Nat.lt_or_ge o'.start o.stop with hStop | hStop
    · exact .inl (eq_of_within hStart hStop)
    · exact .inr (.inl hStop)
  · rcases Nat.lt_or_ge o.start o'.stop with hStop | hStop
    · exact .inl (eq_of_within hStart hStop).symm
    · exact .inr (.inr hStop)

end Occurrence

end Stepwise.Prompt
