import OpenFalcon.Text.Lines

/-!
# Paths

`clean`, `join` and `fileName` are `filepath.Clean`, `filepath.Join` and the second result of
`filepath.Split` of the Go library, where the separator is a slash.  They look at the text of a path
only, never at the files it names.

A path has elements: what stands between slashes, without the empty ones and the dots.  `reduce`
walks along them and drops an element with the `..` behind it; what is left is rendered again.  The
laws below follow from two facts about `reduce`.  A reduced list is reduced already
(`reduce_reverse_reduce`), and to walk along a list from anywhere is to walk along what it reduces
to (`foldl_reduce`).
-/

namespace Text
namespace Path

/-! ## Elements -/

/-- The elements of a path. -/
def elements (path : List Char) : List (List Char) := (words '/' path).filter (· ≠ ['.'])

/-- The element that leads to the parent. -/
def up : List Char := ['.', '.']

/-- A text that can be an element. -/
def IsElement (e : List Char) : Prop := e ≠ [] ∧ '/' ∉ e ∧ e ≠ ['.']

/-- A text that can be the name of a file. -/
def IsName (e : List Char) : Prop := IsElement e ∧ e ≠ up

instance (e : List Char) : Decidable (IsName e) :=
  inferInstanceAs (Decidable ((e ≠ [] ∧ '/' ∉ e ∧ e ≠ ['.']) ∧ e ≠ up))

theorem elements_append_cons (p q : List Char) :
    elements (p ++ '/' :: q) = elements p ++ elements q := by
  rw [elements, words_append_cons, List.filter_append]
  rfl

variable {a b name p : List Char}

theorem isElement_of_mem_elements {e : List Char} (h : e ∈ elements p) : IsElement e := by
  obtain ⟨hword, hdot⟩ := List.mem_filter.mp h
  obtain ⟨hpiece, hne⟩ := List.mem_filter.mp hword
  exact ⟨of_decide_eq_true hne, notMem_of_mem_splitOn hpiece, of_decide_eq_true hdot⟩

variable {es : List (List Char)} {root : Bool}

/-- **Elements with slashes between them** are the elements of the path. -/
theorem elements_intercalate (h : ∀ e ∈ es, IsElement e) :
    elements (['/'].intercalate es) = es := by
  cases es with
  | nil => rfl
  | cons e es =>
    have hsplit : (['/'].intercalate (e :: es)).splitOn '/' = e :: es :=
      List.splitOn_intercalate '/' (fun e he => (h e he).2.1) (List.cons_ne_nil e es)
    rw [elements, words, hsplit, List.filter_filter, List.filter_eq_self]
    intro e he
    simp [(h e he).1, (h e he).2.2]

theorem elements_of_isElement {e : List Char} (h : IsElement e) : elements e = [e] := by
  have hsingle := elements_intercalate (List.forall_mem_singleton.mpr h)
  rwa [List.intercalate_singleton] at hsingle

/-! ## Reducing -/

/-- One step along the elements.  What is left so far is a stack; the parent of a root is the
root. -/
def cleanStep (root : Bool) (stack : List (List Char)) (e : List Char) : List (List Char) :=
  if e = up then
    match stack with
    | [] => if root then [] else [e]
    | top :: rest => if top = up then e :: top :: rest else rest
  else e :: stack

/-- What is left of elements, the last one first. -/
def reduce (root : Bool) (es : List (List Char)) : List (List Char) :=
  es.foldl (cleanStep root) []

theorem cleanStep_of_ne {stack : List (List Char)} {e : List Char} (h : e ≠ up) :
    cleanStep root stack e = e :: stack := if_neg h

/-- A step pushes the element, or drops the top, or stays at the root. -/
theorem cleanStep_cases (root : Bool) (stack : List (List Char)) (e : List Char) :
    cleanStep root stack e = e :: stack ∨
      e = up ∧ ((∃ top rest, stack = top :: rest ∧ top ≠ up ∧ cleanStep root stack e = rest) ∨
        stack = [] ∧ root = true ∧ cleanStep root stack e = []) := by
  by_cases he : e = up
  · cases stack with
    | nil =>
      cases root with
      | true => exact Or.inr ⟨he, Or.inr ⟨rfl, rfl, by rw [cleanStep, if_pos he]; rfl⟩⟩
      | false => exact Or.inl (by rw [cleanStep, if_pos he]; rfl)
    | cons top rest =>
      by_cases htop : top = up
      · exact Or.inl (by rw [cleanStep, if_pos he]; exact if_pos htop)
      · exact Or.inr ⟨he, Or.inl ⟨top, rest, rfl, htop, by
          rw [cleanStep, if_pos he]; exact if_neg htop⟩⟩
  · exact Or.inl (cleanStep_of_ne he)

/-- The parent of an element is where it was pushed. -/
theorem cleanStep_cleanStep_up {top : List Char} (h : top ≠ up) (stack : List (List Char)) :
    cleanStep root (cleanStep root stack top) up = stack := by
  rw [cleanStep_of_ne h, cleanStep, if_pos rfl]
  exact if_neg h

theorem reduce_concat (root : Bool) (es : List (List Char)) (e : List Char) :
    reduce root (es ++ [e]) = cleanStep root (reduce root es) e := by
  rw [reduce, List.foldl_append]
  rfl

theorem reduce_append (root : Bool) (es es' : List (List Char)) :
    reduce root (es ++ es') = es'.foldl (cleanStep root) (reduce root es) :=
  List.foldl_append

theorem mem_of_mem_reduce {e : List Char} (h : e ∈ reduce root es) : e ∈ es := by
  induction es using List.reverseRecOn with
  | nil => exact h
  | append_singleton es x ih =>
    rw [reduce_concat] at h
    rcases cleanStep_cases root (reduce root es) x with
      hpush | ⟨-, ⟨top, rest, hstack, -, hpop⟩ | ⟨-, -, hroot⟩⟩
    · rw [hpush] at h
      rcases List.mem_cons.mp h with rfl | hmem
      · exact List.mem_append_right es List.mem_cons_self
      · exact List.mem_append_left [x] (ih hmem)
    · rw [hpop] at h
      exact List.mem_append_left [x] (ih (hstack ▸ List.mem_cons_of_mem top h))
    · rw [hroot] at h
      cases h

/-- **Walking along a list is walking along what it reduces to**, from anywhere. -/
theorem foldl_reduce (root : Bool) (es stack : List (List Char)) :
    (reduce false es).reverse.foldl (cleanStep root) stack = es.foldl (cleanStep root) stack := by
  induction es using List.reverseRecOn with
  | nil => rfl
  | append_singleton es e ih =>
    rw [reduce_concat, List.foldl_append, List.foldl_cons, List.foldl_nil, ← ih]
    rcases cleanStep_cases false (reduce false es) e with
      hpush | ⟨he, ⟨top, rest, hstack, htop, hpop⟩ | ⟨-, hroot, -⟩⟩
    · rw [hpush, List.reverse_cons, List.foldl_append]
      rfl
    · rw [hpop, hstack, List.reverse_cons, List.foldl_append, he]
      exact (cleanStep_cleanStep_up htop _).symm
    · cases hroot

/-- **What is reduced stays as it is.** -/
theorem reduce_reverse_reduce (root : Bool) (es : List (List Char)) :
    reduce root (reduce root es).reverse = reduce root es := by
  induction es using List.reverseRecOn with
  | nil => rfl
  | append_singleton es e ih =>
    rw [reduce_concat]
    rcases cleanStep_cases root (reduce root es) e with
      hpush | ⟨-, ⟨top, rest, hstack, htop, hpop⟩ | ⟨-, -, hroot⟩⟩
    · rw [hpush, List.reverse_cons, reduce_concat, ih, hpush]
    · rw [hpop]
      rw [hstack, List.reverse_cons, reduce_concat, cleanStep_of_ne htop] at ih
      exact (List.cons.inj ih).2
    · rw [hroot]
      rfl

theorem foldl_cleanStep_of_forall (root : Bool) (h : ∀ e ∈ es, e ≠ up) (stack : List (List Char)) :
    es.foldl (cleanStep root) stack = es.reverse ++ stack := by
  induction es generalizing stack with
  | nil => rfl
  | cons e es ih =>
    rw [List.foldl_cons, cleanStep_of_ne (h e List.mem_cons_self),
      ih fun e he => h e (List.mem_cons_of_mem _ he), List.reverse_cons, List.append_assoc]
    rfl

/-! ## Cleaning -/

/-- The path begins at the root. -/
def rooted (path : List Char) : Bool := path.head? = some '/'

/-- The path with these elements. -/
def render (root : Bool) (es : List (List Char)) : List Char :=
  if root then '/' :: ['/'].intercalate es
  else if es = [] then ['.'] else ['/'].intercalate es

/-- `filepath.Clean`. -/
def clean (path : List Char) : List Char :=
  render (rooted path) (reduce (rooted path) (elements path)).reverse

theorem elements_render (root : Bool) (h : ∀ e ∈ es, IsElement e) :
    elements (render root es) = es := by
  unfold render
  split_ifs with hroot hnil
  · exact (elements_append_cons [] _).trans (elements_intercalate h)
  · rw [hnil]
    decide
  · exact elements_intercalate h

theorem rooted_render (root : Bool) (h : ∀ e ∈ es, IsElement e) :
    rooted (render root es) = root := by
  unfold render
  split_ifs with hroot hnil
  · exact hroot.symm
  · rw [Bool.eq_false_of_not_eq_true hroot]
    decide
  · cases es with
    | nil => exact absurd rfl hnil
    | cons e es =>
      obtain ⟨hne, hslash, -⟩ := h e List.mem_cons_self
      obtain ⟨c, e', rfl⟩ := List.exists_cons_of_ne_nil hne
      have hc : c ≠ '/' := fun heq => hslash (heq ▸ List.mem_cons_self)
      have hhead : (['/'].intercalate ((c :: e') :: es)).head? = some c := by
        cases es with
        | nil => rfl
        | cons e₂ es => rfl
      rw [rooted, hhead, Bool.eq_false_of_not_eq_true hroot]
      simpa using hc

theorem isElement_of_mem_reduce {e : List Char} (h : e ∈ (reduce root (elements p)).reverse) :
    IsElement e :=
  isElement_of_mem_elements (mem_of_mem_reduce (List.mem_reverse.mp h))

theorem elements_clean (p : List Char) :
    elements (clean p) = (reduce (rooted p) (elements p)).reverse :=
  elements_render _ fun _ => isElement_of_mem_reduce

theorem rooted_clean (p : List Char) : rooted (clean p) = rooted p :=
  rooted_render _ fun _ => isElement_of_mem_reduce

theorem clean_ne_nil (p : List Char) : clean p ≠ [] := by
  intro h
  have hclean := h
  unfold clean render at hclean
  split_ifs at hclean with hroot hnil
  -- a path that is not rooted and has elements is not empty
  exact hnil ((elements_clean p).symm.trans (by rw [h]; rfl))

theorem clean_congr {q : List Char} (hroot : rooted p = rooted q)
    (hreduce : reduce (rooted q) (elements p) = reduce (rooted q) (elements q)) :
    clean p = clean q := by
  rw [clean, hroot, hreduce, clean]

/-! ## Joining -/

/-- `filepath.Join`. -/
def join (elems : List (List Char)) : List Char :=
  match elems.dropWhile (· = []) with
  | [] => []
  | e :: es => clean (['/'].intercalate (e :: es))

/-- The second result of `filepath.Split`. -/
def fileName (path : List Char) : List Char := path.rtakeWhile (· ≠ '/')

theorem join_pair (ha : a ≠ []) (b : List Char) : join [a, b] = clean (a ++ '/' :: b) := by
  have hdrop : [a, b].dropWhile (· = []) = [a, b] := by
    rw [List.dropWhile_cons_of_neg (by simpa using ha)]
  rw [join, hdrop]
  show clean (['/'].intercalate [a, b]) = _
  rw [List.intercalate_cons_cons, List.intercalate_singleton, List.append_assoc]
  rfl

theorem rooted_append (ha : a ≠ []) (b : List Char) : rooted (a ++ b) = rooted a := by
  obtain ⟨c, a', rfl⟩ := List.exists_cons_of_ne_nil ha
  rfl

theorem join_nil_pair (hb : b ≠ []) : join [[], b] = clean b := by
  have hdrop : [[], b].dropWhile (· = []) = [b] := by
    rw [List.dropWhile_cons_of_pos (by simp), List.dropWhile_cons_of_neg (by simpa using hb)]
  rw [join, hdrop]
  show clean (['/'].intercalate [b]) = _
  rw [List.intercalate_singleton]

theorem join_nil_eq (hb : b ≠ []) (hroot : rooted b = false) : join [[], b] = join [['.'], b] := by
  have hne : (['.'] : List Char) ≠ [] := List.cons_ne_nil _ _
  rw [join_nil_pair hb, join_pair hne]
  refine clean_congr (by rw [hroot]; rfl) ?_
  rw [elements_append_cons]
  rfl

theorem elements_join (ha : a ≠ []) (b : List Char) :
    elements (join [a, b]) = (reduce (rooted a) (elements a ++ elements b)).reverse := by
  rw [join_pair ha, elements_clean, rooted_append ha, elements_append_cons]

theorem rooted_join (ha : a ≠ []) (b : List Char) : rooted (join [a, b]) = rooted a := by
  rw [join_pair ha, rooted_clean, rooted_append ha]

theorem join_ne_nil (ha : a ≠ []) (b : List Char) : join [a, b] ≠ [] := by
  rw [join_pair ha]
  exact clean_ne_nil _

theorem join_join_of_ne (ha : a ≠ []) (hb : b ≠ []) (hroot : rooted b = false) (c : List Char) :
    join [a, join [b, c]] = join [join [a, b], c] := by
  rw [join_pair ha, join_pair (join_ne_nil ha b)]
  refine clean_congr ?_ ?_
  · rw [rooted_append ha, rooted_append (join_ne_nil ha b), rooted_join ha]
  · rw [rooted_append (join_ne_nil ha b), rooted_join ha, elements_append_cons,
      elements_append_cons, elements_join hb, elements_join ha, hroot, reduce_append,
      foldl_reduce, reduce_append _ _ (elements c), reduce_reverse_reduce, reduce_append,
      List.foldl_append]

/-- **Joins can be nested either way**, if the path in the middle does not begin at the root. -/
theorem join_join (a : List Char) (hb : b ≠ []) (hroot : rooted b = false) (c : List Char) :
    join [a, join [b, c]] = join [join [a, b], c] := by
  by_cases ha : a = []
  · subst ha
    have hne : (['.'] : List Char) ≠ [] := List.cons_ne_nil _ _
    rw [join_nil_eq (join_ne_nil hb c) ((rooted_join hb c).trans hroot), join_nil_eq hb hroot]
    exact join_join_of_ne hne hb hroot c
  · exact join_join_of_ne ha hb hroot c

theorem fileName_render (root : Bool) (es : List (List Char)) (h : '/' ∉ name) :
    fileName (render root (es ++ [name])) = name := by
  have hconcat : ['/'].intercalate (es ++ [name]) = name ∨
      ∃ pre, ['/'].intercalate (es ++ [name]) = pre ++ '/' :: name := by
    induction es with
    | nil => exact Or.inl List.intercalate_singleton
    | cons e es ih =>
      obtain ⟨e', es', hes⟩ := List.exists_cons_of_ne_nil (List.concat_ne_nil name es)
      rw [List.cons_append, hes, List.intercalate_cons_cons, ← hes]
      rcases ih with hname | ⟨pre, hpre⟩
      · exact Or.inr ⟨e, by rw [hname, List.append_assoc]; rfl⟩
      · exact Or.inr ⟨e ++ ['/'] ++ pre, by rw [hpre, List.append_assoc _ pre]⟩
  have hbare : fileName name = name := by
    refine List.rtakeWhile_eq_self_iff.mpr fun c hc => ?_
    simpa using fun heq : c = '/' => h (heq ▸ hc)
  have hne : es ++ [name] ≠ [] := List.concat_ne_nil name es
  rw [render, if_neg hne]
  rcases hconcat with hname | ⟨pre, hpre⟩
  · rw [hname]
    split_ifs
    · exact rtakeWhile_append_cons h []
    · exact hbare
  · rw [hpre]
    split_ifs
    · exact rtakeWhile_append_cons h ('/' :: pre)
    · exact rtakeWhile_append_cons h pre

/-- **The name at the end of a join.** -/
theorem fileName_join (d : List Char) (h : IsName name) : fileName (join [d, name]) = name := by
  obtain ⟨helement, hup⟩ := h
  have hclean : ∀ p es, elements p = es ++ [name] → fileName (clean p) = name := by
    intro p es hp
    rw [clean, hp, reduce_concat, cleanStep_of_ne hup, List.reverse_cons]
    exact fileName_render _ _ helement.2.1
  by_cases hd : d = []
  · rw [hd, join_nil_pair helement.1]
    exact hclean name [] (elements_of_isElement helement)
  · rw [join_pair hd]
    refine hclean _ (elements d) ?_
    rw [elements_append_cons, elements_of_isElement helement]

/-! ## Plain paths -/

/-- A path that is clean, begins at no root and never leads upwards. -/
structure IsPlain (path : List Char) : Prop where
  clean_eq : clean path = path
  rooted : rooted path = false
  down : ∀ e ∈ elements path, e ≠ up

theorem IsPlain.render_elements {path : List Char} (h : IsPlain path) :
    render false (elements path) = path := by
  have hreduce : reduce false (elements path) = (elements path).reverse ++ [] :=
    foldl_cleanStep_of_forall false h.down []
  have hclean := h.clean_eq
  rwa [clean, h.rooted, hreduce, List.append_nil, List.reverse_reverse] at hclean

/-- **Below one directory a plain path is determined by where it leads.** -/
theorem IsPlain.eq_of_join_eq {b' : List Char} (hb : IsPlain b) (hb' : IsPlain b')
    (h : join [a, b] = join [a, b']) : b = b' := by
  have hne : ∀ {b : List Char}, IsPlain b → b ≠ [] := fun hb hnil =>
    clean_ne_nil _ (hb.clean_eq.trans hnil)
  by_cases ha : a = []
  · rwa [ha, join_nil_pair (hne hb), join_nil_pair (hne hb'), hb.clean_eq, hb'.clean_eq] at h
  · have helements : ∀ {b : List Char}, IsPlain b →
        elements (join [a, b]) = (reduce (Path.rooted a) (elements a)).reverse ++ elements b := by
      intro b hb
      rw [elements_join ha, reduce_append, foldl_cleanStep_of_forall _ hb.down, List.reverse_append,
        List.reverse_reverse]
    have happend := congrArg elements h
    rw [helements hb, helements hb'] at happend
    rw [← hb.render_elements, List.append_cancel_left happend, hb'.render_elements]

/-- A name below a directory that does not lead upwards. -/
theorem isPlain_join {d : List Char} (hd : d ≠ []) (hroot : rooted d = false)
    (hdown : ∀ e ∈ elements d, e ≠ up) (h : IsName name) : IsPlain (join [d, name]) where
  clean_eq := by
    rw [join_pair hd]
    refine clean_congr (rooted_clean _) ?_
    rw [elements_clean]
    exact reduce_reverse_reduce _ _
  rooted := (rooted_join hd name).trans hroot
  down e he := by
    rw [elements_join hd, elements_of_isElement h.1] at he
    rcases List.mem_append.mp (mem_of_mem_reduce (List.mem_reverse.mp he)) with hmem | hmem
    · exact hdown e hmem
    · rw [List.mem_singleton.mp hmem]
      exact h.2

end Path
end Text
