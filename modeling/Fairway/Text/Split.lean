namespace Fairway

/-- The text after `start`, when the text begins with it. -/
def after? (start cs : List Char) : Option (List Char) :=
  if start.isPrefixOf cs then some (cs.drop start.length) else none

/-- The text before `tail`, when the text ends with it. -/
def before? (tail : List Char) (cs : List Char) : Option (List Char) :=
  (after? tail.reverse cs.reverse).map List.reverse

def splitFirst (sep : List Char) : List Char → Option (List Char × List Char)
  | [] => if sep = [] then some ([], []) else none
  | c :: cs =>
    if sep.isPrefixOf (c :: cs) then some ([], (c :: cs).drop sep.length)
    else (splitFirst sep cs).map fun (front, rest) => (c :: front, rest)

/-- The texts between the occurrences of `sep`; there is always at least one. -/
def pieces (sep : Char) : List Char → List (List Char)
  | [] => [[]]
  | c :: cs =>
    if c = sep then [] :: pieces sep cs
    else
      match pieces sep cs with
      | [] => [[c]]
      | first :: rest => (c :: first) :: rest

/-- The text without the run of `c` at its end. -/
def trimEnd (c : Char) (cs : List Char) : List Char :=
  (cs.reverse.dropWhile (· == c)).reverse

theorem after?_append (start rest : List Char) : after? start (start ++ rest) = some rest := by
  simp [after?]

theorem eq_append_of_after? {start cs rest : List Char} (found : after? start cs = some rest) :
    cs = start ++ rest := by
  unfold after? at found
  split at found
  case isTrue h =>
    obtain ⟨tail, rfl⟩ := List.isPrefixOf_iff_prefix.1 h
    simp at found
    rw [found]
  case isFalse => cases found

theorem eq_append_of_splitFirst {sep cs front rest : List Char}
    (found : splitFirst sep cs = some (front, rest)) : cs = front ++ sep ++ rest := by
  induction cs generalizing front with
  | nil =>
    simp only [splitFirst] at found
    split at found <;> simp_all
  | cons c cs ih =>
    simp only [splitFirst] at found
    split at found
    case isTrue h =>
      obtain ⟨tail, eq⟩ := List.isPrefixOf_iff_prefix.1 h
      rw [← eq] at found ⊢
      simp at found
      simp [found]
    case isFalse =>
      obtain ⟨⟨a, b⟩, inner, eq⟩ := Option.map_eq_some_iff.1 found
      cases eq
      simp [ih inner]

theorem eq_trimEnd_append (c : Char) (cs : List Char) : ∃ n, cs = trimEnd c cs ++ List.replicate n c := by
  refine ⟨(cs.reverse.takeWhile (· == c)).length, ?_⟩
  have run : cs.reverse.takeWhile (· == c) = List.replicate _ c :=
    List.eq_replicate_of_mem fun d member => by simpa using List.all_eq_true.1 List.all_takeWhile d member
  have parts := List.takeWhile_append_dropWhile (p := (· == c)) (l := cs.reverse)
  rw [← List.reverse_inj, trimEnd, List.reverse_append, List.reverse_reverse, List.reverse_replicate, ← run, parts]

theorem getLast?_trimEnd (c : Char) (cs : List Char) : (trimEnd c cs).getLast? ≠ some c := by
  rw [trimEnd, List.getLast?_reverse]
  intro last
  have other := List.head?_dropWhile_not (· == c) cs.reverse
  simp [last] at other

theorem pieces_ne_nil (sep : Char) (cs : List Char) : pieces sep cs ≠ [] := by
  cases cs with
  | nil => simp [pieces]
  | cons c cs =>
    simp only [pieces]
    split
    · simp
    · split <;> simp

theorem intercalate_pieces (sep : Char) (cs : List Char) : [sep].intercalate (pieces sep cs) = cs := by
  induction cs with
  | nil => simp [pieces]
  | cons c cs ih =>
    simp only [pieces]
    split
    case isTrue same =>
      subst same
      cases rest : pieces c cs with
      | nil => exact absurd rest (pieces_ne_nil c cs)
      | cons first more => rw [rest] at ih; simp [List.intercalate_cons_cons, ih]
    case isFalse =>
      cases rest : pieces sep cs with
      | nil => exact absurd rest (pieces_ne_nil sep cs)
      | cons first more =>
        rw [rest] at ih
        rw [← ih]
        cases more <;> simp [List.intercalate_cons_cons]

theorem pieces_of_free {sep : Char} {cs : List Char} (free : sep ∉ cs) : pieces sep cs = [cs] := by
  induction cs with
  | nil => rfl
  | cons c cs ih =>
    obtain ⟨different, free⟩ := not_or.1 (mt List.mem_cons.2 free)
    simp only [pieces, if_neg (Ne.symm different), ih free]

theorem pieces_append_cons {sep : Char} {front : List Char} (free : sep ∉ front) (rest : List Char) :
    pieces sep (front ++ sep :: rest) = front :: pieces sep rest := by
  induction front with
  | nil => simp [pieces]
  | cons c front ih =>
    obtain ⟨different, free⟩ := not_or.1 (mt List.mem_cons.2 free)
    simp only [List.cons_append, pieces, if_neg (Ne.symm different), ih free]

theorem pieces_append_sep (sep : Char) (front rest : List Char) :
    pieces sep (front ++ sep :: rest) = pieces sep front ++ pieces sep rest := by
  induction front with
  | nil => simp [pieces]
  | cons c front ih =>
    obtain ⟨first, more, cut⟩ := List.exists_cons_of_ne_nil (pieces_ne_nil sep front)
    simp only [List.cons_append, pieces, ih, cut]
    split <;> rfl

end Fairway
