import OpenFalcon.Text.Cut
import OpenFalcon.Text.Replace
import OpenFalcon.Text.Split

/-!
# The arguments of a plugin

`PluginArgsParse` of `modules/agent/plugins/scheduler.go`.  Arguments have commas between them, and
a comma inside an argument is written `\,`.  The parser cuts the text at `\,` first, into rows, and
the rows at the commas that are left; then it puts the last piece of a row and the first piece of
the next together again.

It carries the last piece from row to row as `tail`, and two things are lost on the way.  The last
piece of a row is kept only if it is not the first one too, so a row of one piece cannot be carried
on; and the pieces are trimmed before they are put together.  What the parser makes of escaped
arguments is one formula (`pluginArgsParse_escape`): the first argument falls apart at its commas,
and of the commas of any other argument only the first one is put back.  Escaping is undone exactly
if that is enough (`escape_roundtrip_iff`).

The proof reads a text as its pieces with the separators between them (`Piece`), and the two loops
over the rows as one walk along the pieces (`walk`).
-/

namespace OpenFalcon.Agent

open Text

/-! ## The source -/

/-- The three calls of `strings.Trim` on a piece. -/
def cleanArg (arg : List Char) : List Char := trim '\'' (trim '"' (trim ' ' arg))

/-- `ret` and `tail` of the second loop. -/
structure Stitched where
  ret : List (List Char)
  tail : List Char

/-- A piece behind the piece that was carried over, if there is one. -/
def stitch (tail y : List Char) : List Char := if tail ≠ [] then tail ++ ',' :: y else y

/-- The body of the inner loop, for piece `j` of a row of `size` pieces. -/
def stitchPiece (size : ℕ) (st : Stitched) (p : List Char × ℕ) : Stitched :=
  if p.2 = 0 then ⟨st.ret ++ [stitch st.tail p.1], []⟩
  else if p.2 = size - 1 then { st with tail := p.1 }
  else { st with ret := st.ret ++ [p.1] }

/-- The inner loop. -/
def stitchRow (st : Stitched) (x : List (List Char)) : Stitched :=
  x.zipIdx.foldl (stitchPiece x.length) st

/-- What is returned at the end. -/
def Stitched.finish (st : Stitched) : List (List Char) :=
  if st.tail ≠ [] then st.ret ++ [st.tail] else st.ret

/-- The rows of pieces, as `strings.Split` makes them. -/
def splitRows (raw_args : List Char) : List (List (List Char)) :=
  (splitText ['\\', ','] raw_args).map fun s => s.splitOn ','

/-- `PluginArgsParse`. -/
def pluginArgsParse (raw_args : List Char) : List (List Char) :=
  ((((splitRows raw_args).map fun x => x.map cleanArg).foldl stitchRow ⟨[], []⟩)).finish

example : pluginArgsParse "-t, 'a\\,b' ,c".toList = ["-t".toList, "a,b".toList, "c".toList] := by
  decide

/-- The escaping the comment on `PluginArgsParse` describes. -/
def escapeArgs (args : List (List Char)) : List Char :=
  [','].intercalate (args.map (replaceAll [','] ['\\', ',']))

/-! ## Pieces -/

/-- A piece, and whether an escaped comma is before it or a plain one. -/
structure Piece where
  escaped : Bool
  text : List Char

/-- The separator before a piece. -/
def Piece.sep (p : Piece) : List Char := if p.escaped then ['\\', ','] else [',']

/-- The text of a first piece and those behind it. -/
def unsplit (y : List Char) (rest : List Piece) : List Char :=
  y ++ rest.flatMap fun p => p.sep ++ p.text

/-- The rows of a first piece and those behind it. -/
def rows : List Char → List Piece → List (List (List Char))
  | y, [] => [[y]]
  | y, p :: rest =>
    if p.escaped then [y] :: rows p.text rest else (rows p.text rest).modifyHead (y :: ·)

/-- The text of a piece has neither commas nor backslashes. -/
def Plain (y : List Char) : Prop := ',' ∉ y ∧ '\\' ∉ y

/-- **The rows are read from the text.** -/
theorem splitRows_unsplit {y : List Char} (hy : Plain y) {rest : List Piece}
    (hrest : ∀ p ∈ rest, Plain p.text) : splitRows (unsplit y rest) = rows y rest := by
  induction rest generalizing y with
  | nil =>
    have hone : splitText ['\\', ','] (y ++ []) = [y ++ []] := splitText_append hy.2 []
    rw [splitRows, unsplit, List.flatMap_nil, hone, List.append_nil, List.map_singleton,
      List.splitOn_eq_singleton hy.1, rows]
  | cons p rest ih =>
    have ih := ih (hrest p List.mem_cons_self) fun q hq => hrest q (List.mem_cons_of_mem p hq)
    have htext : unsplit y (p :: rest) = y ++ (p.sep ++ unsplit p.text rest) := by
      rw [unsplit, List.flatMap_cons, List.append_assoc, unsplit]
    rw [htext, rows]
    cases hescaped : p.escaped with
    | true =>
      have hsplit : splitText ['\\', ','] (y ++ (p.sep ++ unsplit p.text rest)) =
          y :: splitText ['\\', ','] (unsplit p.text rest) := by
        rw [splitText_append hy.2, Piece.sep, hescaped, if_pos rfl, splitText_sep_append]
        show (y ++ []) :: _ = _
        rw [List.append_nil]
      rw [splitRows, hsplit, List.map_cons, List.splitOn_eq_singleton hy.1, if_pos rfl, ← ih,
        splitRows]
    | false =>
      have hw : '\\' ∉ y ++ [','] := by
        rw [List.mem_append, List.mem_singleton]
        exact fun h => h.elim hy.2 (by decide)
      have hsplit : splitText ['\\', ','] (y ++ (p.sep ++ unsplit p.text rest)) =
          (splitText ['\\', ','] (unsplit p.text rest)).modifyHead ((y ++ [',']) ++ ·) := by
        rw [← splitText_append hw, Piece.sep, hescaped, if_neg (by decide), List.append_assoc]
      rw [splitRows, hsplit, if_neg (by decide), ← ih, splitRows]
      cases splitText ['\\', ','] (unsplit p.text rest) with
      | nil => rfl
      | cons s pieces =>
        rw [List.modifyHead_cons, List.map_cons, List.map_cons, List.modifyHead_cons,
          List.append_assoc, List.singleton_append,
          List.splitOn_append_cons_self_of_not_mem hy.1]

theorem map_rows (f : List Char → List Char) (y : List Char) (rest : List Piece) :
    (rows y rest).map (fun x => x.map f) =
      rows (f y) (rest.map fun p => { p with text := f p.text }) := by
  induction rest generalizing y with
  | nil => rfl
  | cons p rest ih =>
    rw [List.map_cons, rows, rows]
    split_ifs
    · rw [List.map_cons, ih]
      rfl
    · rw [← ih]
      cases rows p.text rest <;> rfl

/-! ## The walk -/

/-- What the loops do to a piece `y` and those behind it.  `first` says that the piece is the first
of its row, and only then there can be a `tail`. -/
def walk : Bool → List Char → List Char → List Piece → List (List Char)
  | true, tail, y, [] => [stitch tail y]
  | false, _, y, [] => if y ≠ [] then [y] else []
  | true, tail, y, p :: rest => stitch tail y :: walk p.escaped [] p.text rest
  | false, _, y, p :: rest =>
    if p.escaped then walk true y p.text rest else y :: walk false [] p.text rest

theorem stitchRow_singleton (st : Stitched) (y : List Char) :
    stitchRow st [y] = ⟨st.ret ++ [stitch st.tail y], []⟩ := rfl

/-- The pieces between the first and the last one. -/
theorem foldl_stitchPiece_mid {size j : ℕ} (hj : 0 < j) {mid : List (List Char)}
    (hsize : j + mid.length < size) (st : Stitched) :
    (mid.zipIdx j).foldl (stitchPiece size) st = { st with ret := st.ret ++ mid } := by
  induction mid generalizing j st with
  | nil => simp
  | cons x mid ih =>
    rw [List.length_cons] at hsize
    have hstep : stitchPiece size st (x, j) = { st with ret := st.ret ++ [x] } := by
      rw [stitchPiece, if_neg (by simpa using hj.ne'), if_neg (by simp only; omega)]
    rw [List.zipIdx_cons, List.foldl_cons, hstep, ih (by omega) (by omega), List.append_assoc]
    rfl

theorem stitchRow_concat (st : Stitched) (y z : List Char) (mid : List (List Char)) :
    stitchRow st (y :: (mid ++ [z])) = ⟨st.ret ++ stitch st.tail y :: mid, z⟩ := by
  have hsize : (y :: (mid ++ [z])).length = mid.length + 2 := by simp
  have hlast : ∀ st : Stitched,
      stitchPiece (mid.length + 2) st (z, mid.length + 1) = { st with tail := z } := by
    intro st
    rw [stitchPiece, if_neg (by simp), if_pos (by simp)]
  have hmid : ∀ st : Stitched, (mid.zipIdx 1).foldl (stitchPiece (mid.length + 2)) st =
      { st with ret := st.ret ++ mid } := foldl_stitchPiece_mid (by omega) (by omega)
  have hfirst : stitchPiece (mid.length + 2) st (y, 0) = ⟨st.ret ++ [stitch st.tail y], []⟩ :=
    if_pos rfl
  rw [stitchRow, hsize, List.zipIdx_cons, List.foldl_cons, hfirst, Nat.zero_add,
    List.zipIdx_append, List.foldl_append, hmid, Nat.add_comm 1, List.zipIdx_cons, List.foldl_cons,
    List.zipIdx_nil, List.foldl_nil, hlast, List.append_assoc]
  rfl

/-- **The loops are the walk**: on whole rows, and on rows of which some pieces are known. -/
theorem finish_foldl_rows (y : List Char) (rest : List Piece) :
    (∀ st : Stitched, ((rows y rest).foldl stitchRow st).finish =
        st.ret ++ walk true st.tail y rest) ∧
      ∀ (st : Stitched) (x : List Char) (mid : List (List Char)),
        (((rows y rest).modifyHead (fun row => x :: (mid ++ row))).foldl stitchRow st).finish =
          st.ret ++ stitch st.tail x :: (mid ++ walk false [] y rest) := by
  induction rest generalizing y with
  | nil =>
    refine ⟨fun st => ?_, fun st x mid => ?_⟩
    · rw [rows, List.foldl_cons, List.foldl_nil, stitchRow_singleton]
      rfl
    · rw [rows, List.modifyHead_cons, List.foldl_cons, List.foldl_nil, stitchRow_concat,
        Stitched.finish, walk]
      split_ifs
      · rw [List.append_assoc]
        rfl
      · rw [List.append_nil]
  | cons p rest ih =>
    obtain ⟨ihrow, ihmid⟩ := ih p.text
    rw [rows]
    cases hescaped : p.escaped with
    | true =>
      refine ⟨fun st => ?_, fun st x mid => ?_⟩
      · rw [if_pos rfl, List.foldl_cons, stitchRow_singleton, ihrow, walk, hescaped,
          List.append_assoc]
        rfl
      · rw [if_pos rfl, List.modifyHead_cons, List.foldl_cons, stitchRow_concat, ihrow, walk,
          hescaped, if_pos rfl, List.append_assoc]
        rfl
    | false =>
      refine ⟨fun st => ?_, fun st x mid => ?_⟩
      · rw [if_neg (by decide), walk, hescaped]
        exact ihmid st y []
      · have hhead : ((rows p.text rest).modifyHead (y :: ·)).modifyHead
            (fun row => x :: (mid ++ row)) =
              (rows p.text rest).modifyHead (fun row => x :: ((mid ++ [y]) ++ row)) := by
          cases rows p.text rest with
          | nil => rfl
          | cons row rows => simp
        rw [if_neg (by decide), hhead, ihmid, walk, hescaped, if_neg (by decide), List.append_assoc]
        rfl

/-! ## Escaped arguments -/

/-- The pieces an argument falls into behind its first comma. -/
def escapedPieces (ps : List (List Char)) : List Piece := ps.map (Piece.mk true)

/-- The pieces of an argument that is not the first. -/
def argPieces : List (List Char) → List Piece
  | [] => []
  | p :: ps => ⟨false, p⟩ :: escapedPieces ps

theorem exists_splitOn_eq_cons (arg : List Char) : ∃ p ps, arg.splitOn ',' = p :: ps :=
  List.exists_cons_of_ne_nil (List.splitOn_ne_nil _ _)

variable {arg p : List Char} {args : List (List (List Char))} {pieces : List (List Char)}
  {q : Piece}

/-- Escaping the commas of an argument makes them the separators of its pieces. -/
theorem replaceAll_eq_unsplit {ps : List (List Char)} (h : arg.splitOn ',' = p :: ps) :
    replaceAll [','] ['\\', ','] arg = unsplit p (escapedPieces ps) := by
  rw [replaceAll_singleton]
  induction arg generalizing p ps with
  | nil =>
    obtain ⟨rfl, rfl⟩ := List.cons.inj h
    rfl
  | cons c arg ih =>
    obtain ⟨q, qs, hq⟩ := exists_splitOn_eq_cons arg
    rw [List.splitOn_eq_splitOnP, List.splitOnP_cons_eq_if_modifyHead, ← List.splitOn_eq_splitOnP,
      hq] at h
    rw [List.flatMap_cons, ih hq]
    by_cases hc : c = ','
    · rw [if_pos (by simpa using hc)] at h
      obtain ⟨rfl, rfl⟩ := List.cons.inj h
      rw [if_pos hc]
      rfl
    · rw [if_neg (by simpa using hc)] at h
      obtain ⟨rfl, rfl⟩ := List.cons.inj h
      rw [if_neg hc]
      rfl

theorem intercalate_cons (sep : Char) (x : List Char) (xs : List (List Char)) :
    [sep].intercalate (x :: xs) = x ++ xs.flatMap fun y => sep :: y := by
  induction xs generalizing x with
  | nil => simp
  | cons y ys ih =>
    rw [List.intercalate_cons_cons, ih, List.flatMap_cons]
    simp

/-- **Escaped arguments are their pieces.** -/
theorem escapeArgs_eq_unsplit {ps : List (List Char)} (h : arg.splitOn ',' = p :: ps)
    (args : List (List Char)) :
    escapeArgs (arg :: args) =
      unsplit p (escapedPieces ps ++ args.flatMap fun b => argPieces (b.splitOn ',')) := by
  have hrest : (args.map (replaceAll [','] ['\\', ','])).flatMap (fun y => ',' :: y) =
      (args.flatMap fun b => argPieces (b.splitOn ',')).flatMap fun q => q.sep ++ q.text := by
    induction args with
    | nil => rfl
    | cons b args ih =>
      obtain ⟨q, qs, hq⟩ := exists_splitOn_eq_cons b
      rw [List.map_cons, List.flatMap_cons, List.flatMap_cons, List.flatMap_append, ih,
        replaceAll_eq_unsplit hq, hq]
      rfl
  rw [escapeArgs, List.map_cons, intercalate_cons, hrest, replaceAll_eq_unsplit h, unsplit, unsplit,
    List.flatMap_append, List.append_assoc]

/-- What the walk returns behind a piece that it has returned. -/
def follow : List Piece → List (List Char)
  | [] => []
  | p :: rest => walk p.escaped [] p.text rest

theorem walk_true (tail y : List Char) (rest : List Piece) :
    walk true tail y rest = stitch tail y :: follow rest := by
  cases rest <;> rfl

variable (ps : List (List Char))

theorem follow_escapedPieces (rest : List Piece) :
    follow (escapedPieces ps ++ rest) = ps ++ follow rest := by
  induction ps with
  | nil => rfl
  | cons p ps ih =>
    show walk true [] p (escapedPieces ps ++ rest) = _
    rw [walk_true, ih]
    rfl

/-- The pieces of an argument are put together at its first comma. -/
def restore (pieces : List (List Char)) : List (List Char) :=
  match pieces with
  | p :: q :: ps => stitch p q :: ps
  | ps => ps

theorem follow_argPieces (hne : [] ∉ pieces ∨ 1 < pieces.length) {rest : List Piece}
    (hrest : ∀ q, rest.head? = some q → q.escaped = false) :
    follow (argPieces pieces ++ rest) = restore pieces ++ follow rest := by
  match pieces with
  | [] => rfl
  | [p] =>
    have hp : p ≠ [] := by
      rintro rfl
      rcases hne with hne | hne
      · exact hne List.mem_cons_self
      · exact absurd hne (by decide)
    show walk false [] p rest = p :: follow rest
    cases rest with
    | nil => exact if_pos hp
    | cons q rest =>
      rw [walk, hrest q rfl, follow, hrest q rfl]
      rfl
  | p :: q :: ps =>
    show walk true p q (escapedPieces ps ++ rest) = stitch p q :: (ps ++ follow rest)
    rw [walk_true, follow_escapedPieces]

theorem escaped_of_head?_flatMap (h : (args.flatMap argPieces).head? = some q) :
    q.escaped = false := by
  induction args with
  | nil => cases h
  | cons pieces args ih =>
    match pieces with
    | [] => exact ih h
    | p :: ps =>
      obtain rfl : (⟨false, p⟩ : Piece) = q := Option.some.inj h
      rfl

/-- **What is returned behind the first argument.** -/
theorem follow_flatMap_argPieces (hne : ∀ pieces ∈ args, [] ∉ pieces ∨ 1 < pieces.length) :
    follow (args.flatMap argPieces) = args.flatMap restore := by
  induction args with
  | nil => rfl
  | cons pieces args ih =>
    rw [List.flatMap_cons, List.flatMap_cons, follow_argPieces (hne pieces List.mem_cons_self)
      (fun q hq => escaped_of_head?_flatMap hq),
      ih fun b hb => hne b (List.mem_cons_of_mem pieces hb)]

theorem text_mem_of_mem_argPieces (h : q ∈ argPieces pieces) : q.text ∈ pieces := by
  match pieces with
  | [] => cases h
  | p :: ps =>
    rcases List.mem_cons.mp h with rfl | h
    · exact List.mem_cons_self
    · obtain ⟨x, hx, rfl⟩ := List.mem_map.mp h
      exact List.mem_cons_of_mem p hx

/-- Clean the text of a piece. -/
def Piece.clean (p : Piece) : Piece := { p with text := cleanArg p.text }

theorem map_clean_escapedPieces :
    (escapedPieces ps).map Piece.clean = escapedPieces (ps.map cleanArg) := by
  rw [escapedPieces, escapedPieces, List.map_map, List.map_map]
  rfl

theorem map_clean_argPieces (pieces : List (List Char)) :
    (argPieces pieces).map Piece.clean = argPieces (pieces.map cleanArg) := by
  cases pieces with
  | nil => rfl
  | cons p ps =>
    rw [argPieces, List.map_cons, map_clean_escapedPieces]
    rfl

/-- The pieces of an argument, cleaned. -/
def cleanPieces (arg : List Char) : List (List Char) := (arg.splitOn ',').map cleanArg

theorem cleanPieces_of_notMem (h : ',' ∉ arg) : cleanPieces arg = [cleanArg arg] := by
  rw [cleanPieces, List.splitOn_eq_singleton h, List.map_singleton]

theorem exists_splitOn_of_mem (h : ',' ∈ arg) : ∃ p q ps, arg.splitOn ',' = p :: q :: ps := by
  obtain ⟨pre, post, rfl, hpre⟩ := List.eq_append_cons_of_mem h
  obtain ⟨q, ps, hq⟩ := exists_splitOn_eq_cons post
  exact ⟨pre, q, ps, by rw [List.splitOn_append_cons_self_of_not_mem hpre, hq]⟩

/-- **What the parser makes of escaped arguments**: the cleaned pieces of the first argument, and
those of any other put together at the first comma. -/
theorem pluginArgsParse_escape {args : List (List Char)} (hplain : ∀ a ∈ arg :: args, '\\' ∉ a)
    (hne : ∀ b ∈ args, ',' ∉ b → cleanArg b ≠ []) :
    pluginArgsParse (escapeArgs (arg :: args)) =
      cleanPieces arg ++ args.flatMap fun b => restore (cleanPieces b) := by
  obtain ⟨p, ps, hp⟩ := exists_splitOn_eq_cons arg
  have hpiece : ∀ a ∈ arg :: args, ∀ q ∈ a.splitOn ',', Plain q := by
    intro a ha q hq
    exact ⟨notMem_of_mem_splitOn hq,
      fun hmem => hplain a ha ((infix_of_mem_splitOn hq).subset hmem)⟩
  have hrest : ∀ q ∈ escapedPieces ps ++ args.flatMap fun b => argPieces (b.splitOn ','),
      Plain q.text := by
    intro q hq
    rcases List.mem_append.mp hq with hq | hq
    · obtain ⟨x, hx, rfl⟩ := List.mem_map.mp hq
      exact hpiece arg List.mem_cons_self x (hp ▸ List.mem_cons_of_mem p hx)
    · obtain ⟨b, hb, hq⟩ := List.mem_flatMap.mp hq
      exact hpiece b (List.mem_cons_of_mem arg hb) _ (text_mem_of_mem_argPieces hq)
  have hclean : (escapedPieces ps ++ args.flatMap fun b => argPieces (b.splitOn ',')).map
      Piece.clean =
        escapedPieces (ps.map cleanArg) ++ (args.map cleanPieces).flatMap argPieces := by
    rw [List.map_append, map_clean_escapedPieces, List.map_flatMap, List.flatMap_map]
    refine congrArg _ (List.flatMap_congr fun b _ => ?_)
    exact map_clean_argPieces _
  have hpieces : ∀ pieces ∈ args.map cleanPieces, [] ∉ pieces ∨ 1 < pieces.length := by
    intro pieces hmem
    obtain ⟨b, hb, rfl⟩ := List.mem_map.mp hmem
    by_cases hcomma : ',' ∈ b
    · obtain ⟨x, y, rest, hsplit⟩ := exists_splitOn_of_mem hcomma
      refine Or.inr ?_
      rw [cleanPieces, hsplit, List.length_map, List.length_cons, List.length_cons]
      omega
    · rw [cleanPieces_of_notMem hcomma, List.mem_singleton]
      exact Or.inl fun h => hne b hb hcomma h.symm
  have hwalk := (finish_foldl_rows (cleanArg p) ((escapedPieces ps ++
    args.flatMap fun b => argPieces (b.splitOn ',')).map Piece.clean)).1 ⟨[], []⟩
  rw [pluginArgsParse, escapeArgs_eq_unsplit hp,
    splitRows_unsplit (hpiece arg List.mem_cons_self p (hp ▸ List.mem_cons_self)) hrest, map_rows]
  refine hwalk.trans ?_
  rw [walk_true, hclean, follow_escapedPieces, follow_flatMap_argPieces hpieces, List.flatMap_map,
    cleanPieces, hp, List.map_cons]
  rfl

/-! ## Round trips -/

/-- The text neither begins nor ends with a space or a quote. -/
def Bare (s : List Char) : Prop :=
  ∀ c ∈ [' ', '"', '\''], s.head? ≠ some c ∧ s.getLast? ≠ some c

theorem isInfix_cleanArg (s : List Char) : cleanArg s <:+: s :=
  ((isInfix_trim _ _).trans (isInfix_trim _ _)).trans (isInfix_trim _ _)

theorem cleanArg_eq_iff {s : List Char} : cleanArg s = s ↔ Bare s := by
  have hbare : Bare s ↔ trim ' ' s = s ∧ trim '"' s = s ∧ trim '\'' s = s := by
    simp only [Bare, trim_eq_iff, List.forall_mem_cons, List.not_mem_nil, false_imp_iff,
      implies_true, and_true]
  rw [hbare]
  constructor
  · intro h
    -- no step can make the text shorter
    have hquote := (isInfix_trim '\'' (trim '"' (trim ' ' s))).length_le
    have hdouble := (isInfix_trim '"' (trim ' ' s)).length_le
    have hlength : (trim '\'' (trim '"' (trim ' ' s))).length = s.length := congrArg List.length h
    have hspace := (isInfix_trim ' ' s).length_le
    have h1 : trim ' ' s = s := (isInfix_trim ' ' s).eq_of_length (by omega)
    rw [h1] at hquote hdouble hlength
    have h2 : trim '"' s = s := (isInfix_trim '"' s).eq_of_length (by omega)
    rw [cleanArg, h1, h2] at h
    exact ⟨h1, h2, h⟩
  · rintro ⟨h1, h2, h3⟩
    rw [cleanArg, h1, h2, h3]

/-- Lists that are not empty and together make as many entries as there are lists are single. -/
theorem append_flatMap_eq_cons_iff {α : Type} {f : α → List α} {l : List α}
    (hf : ∀ b ∈ l, f b ≠ []) {x : List α} (hx : x ≠ []) {a : α} :
    x ++ l.flatMap f = a :: l ↔ x = [a] ∧ ∀ b ∈ l, f b = [b] := by
  induction l generalizing x a with
  | nil => simp
  | cons b l ih =>
    obtain ⟨c, x, rfl⟩ := List.exists_cons_of_ne_nil hx
    have hb := hf b List.mem_cons_self
    have hne : x ++ f b ≠ [] := fun h => hb (List.append_eq_nil_iff.mp h).2
    have hsingle : x ++ f b = [b] ↔ x = [] ∧ f b = [b] := by
      constructor
      · intro h
        cases x with
        | nil => exact ⟨rfl, h⟩
        | cons d x => exact absurd (List.append_eq_nil_iff.mp (List.cons.inj h).2).2 hb
      · rintro ⟨rfl, h⟩
        exact h
    rw [List.flatMap_cons, List.cons_append, List.cons.injEq, ← List.append_assoc,
      ih (fun d hd => hf d (List.mem_cons_of_mem b hd)) hne, hsingle, List.cons.injEq,
      List.forall_mem_cons]
    tauto

/-- The argument has one comma, something stands before it, and no space or quote stands next to
it. -/
def Restored (b : List Char) : Prop :=
  ∃ p q, b = p ++ ',' :: q ∧ ',' ∉ p ∧ ',' ∉ q ∧ p ≠ [] ∧ Bare p ∧ Bare q

theorem stitch_cleanArg_eq_iff (hp : ',' ∉ p) (q : List Char) :
    stitch (cleanArg p) (cleanArg q) = p ++ ',' :: q ↔ p ≠ [] ∧ Bare p ∧ Bare q := by
  rw [← cleanArg_eq_iff, ← cleanArg_eq_iff, stitch]
  split_ifs with hclean
  · have hclean' : ',' ∉ cleanArg p := fun h => hp ((isInfix_cleanArg p).subset h)
    constructor
    · intro h
      obtain ⟨h1, h2⟩ := eq_of_append_cons_eq hclean' hp h
      exact ⟨h1 ▸ hclean, h1, h2⟩
    · rintro ⟨-, h1, h2⟩
      rw [h1, h2]
  · rw [not_not] at hclean
    refine iff_of_false (fun h => ?_) fun h => h.1 (h.2.1.symm.trans hclean)
    have hle := (isInfix_cleanArg q).length_le
    rw [h, List.length_append, List.length_cons] at hle
    omega

theorem restore_cleanPieces_eq_iff {b : List Char} (hcomma : ',' ∈ b) :
    restore (cleanPieces b) = [b] ↔ Restored b := by
  obtain ⟨p, post, rfl, hp⟩ := List.eq_append_cons_of_mem hcomma
  obtain ⟨q, qs, hq⟩ := exists_splitOn_eq_cons post
  have hrestore : restore (cleanPieces (p ++ ',' :: post)) =
      stitch (cleanArg p) (cleanArg q) :: qs.map cleanArg := by
    rw [cleanPieces, List.splitOn_append_cons_self_of_not_mem hp, hq]
    rfl
  rw [hrestore, List.cons.injEq, List.map_eq_nil_iff]
  constructor
  · rintro ⟨hstitch, rfl⟩
    have hpost : ',' ∉ post := by
      intro hmem
      obtain ⟨x, y, rest, hsplit⟩ := exists_splitOn_of_mem hmem
      rw [hq] at hsplit
      cases hsplit
    rw [List.splitOn_eq_singleton hpost] at hq
    obtain rfl := (List.cons.inj hq).1
    exact ⟨p, post, rfl, hp, hpost, (stitch_cleanArg_eq_iff hp post).mp hstitch⟩
  · rintro ⟨p', q', heq, hp', hq', hgood⟩
    obtain ⟨rfl, rfl⟩ := eq_of_append_cons_eq hp hp' heq
    rw [List.splitOn_eq_singleton hq'] at hq
    obtain ⟨rfl, rfl⟩ := List.cons.inj hq
    exact ⟨(stitch_cleanArg_eq_iff hp _).mpr hgood, rfl⟩

/-- **Escaping is undone, if and only if the arguments have few commas.**  For arguments that are
not empty, have no backslashes and neither begin nor end with a space or a quote, parsing the
escaped arguments returns them exactly if the first has no comma, and any other has at most one,
with something before it and no space or quote next to it. -/
theorem escape_roundtrip_iff {arg : List Char} {args : List (List Char)}
    (hne : ∀ a ∈ arg :: args, a ≠ []) (hplain : ∀ a ∈ arg :: args, '\\' ∉ a)
    (hbare : ∀ a ∈ arg :: args, Bare a) :
    pluginArgsParse (escapeArgs (arg :: args)) = arg :: args ↔
      ',' ∉ arg ∧ ∀ b ∈ args, ',' ∈ b → Restored b := by
  have hclean : ∀ a ∈ arg :: args, ',' ∉ a → cleanPieces a = [a] := by
    intro a ha hcomma
    rw [cleanPieces_of_notMem hcomma, cleanArg_eq_iff.mpr (hbare a ha)]
  have hpieces : ∀ a, cleanPieces a ≠ [] := by
    intro a h
    exact List.splitOn_ne_nil _ _ (List.map_eq_nil_iff.mp h)
  have hrestore : ∀ a, restore (cleanPieces a) ≠ [] := by
    intro a
    obtain ⟨p, ps, hcons⟩ := List.exists_cons_of_ne_nil (hpieces a)
    rw [hcons]
    cases ps with
    | nil => exact List.cons_ne_nil _ _
    | cons q ps => exact List.cons_ne_nil _ _
  rw [pluginArgsParse_escape hplain,
    append_flatMap_eq_cons_iff (fun b _ => hrestore b) (hpieces arg)]
  · refine and_congr ⟨fun h hcomma => ?_, hclean arg List.mem_cons_self⟩
      (forall₂_congr fun b hb => ?_)
    · obtain ⟨p, q, ps, hsplit⟩ := exists_splitOn_of_mem hcomma
      rw [cleanPieces, hsplit] at h
      cases h
    · constructor
      · intro h hcomma
        exact (restore_cleanPieces_eq_iff hcomma).mp h
      · intro h
        by_cases hcomma : ',' ∈ b
        · exact (restore_cleanPieces_eq_iff hcomma).mpr (h hcomma)
        · rw [hclean b (List.mem_cons_of_mem arg hb) hcomma]
          rfl
  · intro b hb _
    rw [cleanArg_eq_iff.mpr (hbare b (List.mem_cons_of_mem arg hb))]
    exact hne b (List.mem_cons_of_mem arg hb)

/-- A comma in the first argument is not put back. -/
theorem escape_splits_first :
    ("a,b".toList ≠ [] ∧ '\\' ∉ "a,b".toList ∧ Bare "a,b".toList) ∧
      escapeArgs ["a,b".toList] = "a\\,b".toList ∧
      pluginArgsParse (escapeArgs ["a,b".toList]) = ["a".toList, "b".toList] ∧
      pluginArgsParse (escapeArgs ["a,b".toList]) ≠ ["a,b".toList] :=
  ⟨⟨by decide, by decide, cleanArg_eq_iff.mp rfl⟩, rfl, rfl, by decide⟩

/-- The condition met, by a comma in the second argument. -/
theorem escape_roundtrip_second :
    pluginArgsParse (escapeArgs ["-t".toList, "a,b".toList]) = ["-t".toList, "a,b".toList] := by
  have hbare : ∀ a ∈ ["-t".toList, "a,b".toList], Bare a := by
    intro a ha
    rcases List.mem_pair.mp ha with rfl | rfl
    · exact cleanArg_eq_iff.mp rfl
    · exact cleanArg_eq_iff.mp rfl
  refine (escape_roundtrip_iff (by decide) (by decide) hbare).mpr ⟨by decide, ?_⟩
  intro b hb _
  obtain rfl := List.mem_singleton.mp hb
  exact ⟨"a".toList, "b".toList, rfl, by decide, by decide, by decide, cleanArg_eq_iff.mp rfl,
    cleanArg_eq_iff.mp rfl⟩

end OpenFalcon.Agent
