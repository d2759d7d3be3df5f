import KernelFs.Proofs.Vfs.Walk

/-!
# The leaf of a path and its parent

The components of an absolute path are its maximal non-empty slash-free pieces after the leading
slash (`components` and `split_path`, src/crates/vfs/src/path.rs:18-36). `Path.SplitsInto cs names`
says so without computing: the text `cs` is the names, in order, each followed by a slash or by the
end of the text, with runs of slashes before, between and after them. The pieces that the code cuts
are exactly those names (`pieces_eq_iff`), so repeated and trailing slashes add nothing and every
component is a non-empty name without a slash.

Splitting a path takes its last component as the leaf and joins the others back under a leading
slash; that directory has exactly the other components (`splitPath_eq_ok_iff`). Only the leaf's
length is checked there. Resolving the parent of a path is the component walk over all
components but the last, followed by the check that the node reached is a directory
(`resolveParent_eq_walk`). Resolving the whole path without creation walks the same components
and then asks the node reached for the leaf (`walk_append`), so once the parent is found the
path resolves to the child the parent finds under the leaf, and is not found when it finds none
(`run_resolve_of_parent`).
-/

namespace KernelFs.Path

/-- The text `cs` is the names `names`, in order, each followed by a slash or by the end, with
runs of slashes before, between and after them. -/
inductive SplitsInto : List Char → List String → Prop where
  | nil : SplitsInto [] []
  | slash {cs : List Char} {names : List String} : SplitsInto cs names →
      SplitsInto ('/' :: cs) names
  | last {name : String} : name ≠ "" → '/' ∉ name.toList → SplitsInto name.toList [name]
  | piece {name : String} {rest : List Char} {names : List String} : name ≠ "" →
      '/' ∉ name.toList → SplitsInto rest names → SplitsInto (name.toList ++ '/' :: rest) (name :: names)

/-! ## The pieces of a text -/

theorem pieces_nil : pieces [] = [] := by
  simp [pieces, List.splitOn_nil]

theorem pieces_slash (cs : List Char) : pieces ('/' :: cs) = pieces cs := by
  unfold pieces
  rw [show '/' :: cs = [] ++ '/' :: cs from rfl,
    List.splitOn_append_cons_self_of_not_mem (List.not_mem_nil) cs]
  simp

theorem pieces_of_slash_free {x : List Char} (hne : x ≠ []) (hx : '/' ∉ x) :
    pieces x = [String.ofList x] := by
  unfold pieces
  rw [List.splitOn_eq_singleton hx]
  simp [hne]

theorem pieces_append_slash {x : List Char} (hne : x ≠ []) (hx : '/' ∉ x) (rest : List Char) :
    pieces (x ++ '/' :: rest) = String.ofList x :: pieces rest := by
  unfold pieces
  rw [List.splitOn_append_cons_self_of_not_mem hx]
  simp [hne]

theorem SplitsInto.pieces_eq {cs : List Char} {names : List String} (h : SplitsInto cs names) :
    pieces cs = names := by
  induction h with
  | nil => exact pieces_nil
  | slash _ ih => rw [pieces_slash, ih]
  | last hne hs =>
    rw [pieces_of_slash_free (by simpa [String.toList_eq_nil_iff] using hne) hs,
      String.ofList_toList]
  | piece hne hs _ ih =>
    rw [pieces_append_slash (by simpa [String.toList_eq_nil_iff] using hne) hs, ih,
      String.ofList_toList]

/-- Every text splits into its pieces. The induction carries the slash-free start of the piece
being read. -/
theorem splitsInto_pieces_append (cs : List Char) :
    ∀ x : List Char, '/' ∉ x → SplitsInto (x ++ cs) (pieces (x ++ cs)) := by
  induction cs with
  | nil =>
    intro x hx
    rw [List.append_nil]
    by_cases hne : x = []
    · subst hne
      rw [pieces_nil]
      exact .nil
    · rw [pieces_of_slash_free hne hx]
      have hname : (String.ofList x).toList = x := String.toList_ofList
      have hsplit : SplitsInto (String.ofList x).toList [String.ofList x] :=
        .last (by rwa [ne_eq, ← String.toList_inj, hname]) (by rwa [hname])
      rwa [hname] at hsplit
  | cons c cs ih =>
    intro x hx
    by_cases hc : c = '/'
    · subst hc
      have hrest := ih [] List.not_mem_nil
      rw [List.nil_append] at hrest
      by_cases hne : x = []
      · subst hne
        rw [List.nil_append, pieces_slash]
        exact .slash hrest
      · rw [pieces_append_slash hne hx]
        have hname : (String.ofList x).toList = x := String.toList_ofList
        have hsplit : SplitsInto ((String.ofList x).toList ++ '/' :: cs)
            (String.ofList x :: pieces cs) :=
          .piece (by rwa [ne_eq, ← String.toList_inj, hname]) (by rwa [hname]) hrest
        rwa [hname] at hsplit
    · -- the character joins the piece being read
      have hx' : '/' ∉ x ++ [c] := by simp [hx, Ne.symm hc]
      simpa using ih (x ++ [c]) hx'

theorem splitsInto_pieces (cs : List Char) : SplitsInto cs (pieces cs) :=
  splitsInto_pieces_append cs [] List.not_mem_nil

/-- The pieces of a text are the names it splits into, and no other list. -/
theorem pieces_eq_iff {cs : List Char} {names : List String} :
    pieces cs = names ↔ SplitsInto cs names :=
  ⟨fun h => h ▸ splitsInto_pieces cs, SplitsInto.pieces_eq⟩

/-- The names a text splits into are non-empty and hold no slash. -/
theorem SplitsInto.good {cs : List Char} {names : List String} (h : SplitsInto cs names) :
    ∀ n ∈ names, n ≠ "" ∧ '/' ∉ n.toList := by
  induction h with
  | nil => simp
  | slash _ ih => exact ih
  | last hne hs => simpa using ⟨hne, hs⟩
  | piece hne hs _ ih =>
    intro n hn
    rcases List.mem_cons.mp hn with rfl | hn
    · exact ⟨hne, hs⟩
    · exact ih n hn

example : pieces "//a/./b//".toList = ["a", ".", "b"] := by decide

/-! ## Components and the split -/

theorem toList_join_head (names : List String) : (join names).toList.head? = some '/' := by
  simp [join, String.toList_append]

/-- A path that does not start with a slash has no components: it is not supported. -/
theorem components_eq_error_iff (path : String) :
    components path = .error .unsupportedOperation ↔ path.toList.head? ≠ some '/' := by
  unfold components
  split
  · rename_i rest hp
    simp [hp]
  · rename_i hp
    refine ⟨fun _ => ?_, fun _ => rfl⟩
    cases ht : path.toList with
    | nil => simp
    | cons c rest =>
      rintro ⟨⟩
      exact hp rest (by rw [ht])

/-- The components of an absolute path are the names the rest of it splits into. -/
theorem components_eq_ok_iff {path : String} {rest : List Char} (hp : path.toList = '/' :: rest)
    (names : List String) : components path = .ok names ↔ SplitsInto rest names := by
  unfold components
  rw [hp]
  simp only [Except.ok.injEq]
  exact pieces_eq_iff

theorem components_good {path : String} {names : List String} (h : components path = .ok names) :
    ∀ n ∈ names, n ≠ "" ∧ '/' ∉ n.toList := by
  unfold components at h
  split at h
  · cases h
    exact (splitsInto_pieces _).good
  · cases h

theorem fits_iff (name : String) : fits name = true ↔ name.utf8ByteSize ≤ 255 := by
  unfold fits nameLimit
  exact decide_eq_true_iff

/-- The split of a path with components looks at the last one alone. -/
theorem splitPath_of_ok {path : String} {names : List String} (h : components path = .ok names) :
    splitPath path = match names.getLast? with
      | none => .error .invalidArgument
      | some leaf => if fits leaf then .ok (join names.dropLast, leaf) else .error .componentTooLong := by
  rw [splitPath, h]
  rfl

theorem splitPath_of_error {path : String} {e : FsError} (h : components path = .error e) :
    splitPath path = .error e := by
  rw [splitPath, h]
  rfl

/-- A path without components has no leaf. -/
theorem splitPath_of_nil {path : String} (h : components path = .ok []) :
    splitPath path = .error .invalidArgument := by
  rw [splitPath, h]
  rfl

/-- A leaf longer than the name limit is refused, whatever the components before it. -/
theorem splitPath_of_long {path leaf : String} {names : List String}
    (h : components path = .ok names) (hl : names.getLast? = some leaf)
    (hlong : 255 < leaf.utf8ByteSize) : splitPath path = .error .componentTooLong := by
  have hfit : fits leaf = false := by
    cases hf : fits leaf
    · rfl
    · exact absurd ((fits_iff leaf).mp hf) (Nat.not_le.mpr hlong)
  rw [splitPath_of_ok h, hl]
  simp [hfit]

/-- A split that succeeds cut the path into all its components but the last, joined under a
slash, and the last one, which fits the name limit. -/
theorem splitPath_eq_ok_iff {path dir leaf : String} :
    splitPath path = .ok (dir, leaf) ↔ ∃ names, components path = .ok names ∧
      names.getLast? = some leaf ∧ leaf.utf8ByteSize ≤ 255 ∧ dir = join names.dropLast := by
  constructor
  · intro h
    cases hc : components path with
    | error e => rw [splitPath_of_error hc] at h; cases h
    | ok names =>
      rw [splitPath_of_ok hc] at h
      refine ⟨names, rfl, ?_⟩
      split at h
      · cases h
      · rename_i l hl
        split at h
        · rename_i hfit
          cases h
          exact ⟨hl, (fits_iff _).mp hfit, rfl⟩
        · cases h
  · rintro ⟨names, hc, hl, hle, rfl⟩
    rw [splitPath_of_ok hc, hl]
    exact if_pos ((fits_iff leaf).mpr hle)

/-- The directory of a split has exactly the components before the leaf. -/
theorem components_dir {path : String} {names : List String} (h : components path = .ok names) :
    components (join names.dropLast) = .ok names.dropLast :=
  Vfs.components_join fun n hn => components_good h n ((List.dropLast_sublist _).subset hn)

end KernelFs.Path

namespace KernelFs.Vfs

open KernelFs.Path

/-! ## Walking the parent, then the leaf -/

/-- Without creation, a walk over two lists of components walks the first, then the second from
the node the first reached. -/
theorem walk_append {flags : OpenFlags} (hc : flags.creates = false) (xs ys : List String) :
    ∀ cur : Node Handle, walk flags cur (xs ++ ys) = walk flags cur xs >>= fun n => walk flags n ys := by
  induction xs with
  | nil => intro cur; simp [walk]
  | cons name rest ih =>
    intro cur
    simp only [List.cons_append, walk, throw_bind]
    by_cases hfit : Path.fits name = true
    · simp only [hfit, Bool.not_true, Bool.false_eq_true, if_false, bind_assoc]
      congr 1
      funext r
      cases r with
      | some c => exact ih c
      | none => simp [hc]
    · simp [hfit]

theorem ofExcept_ok_bind {α β : Type} (a : α) (f : α → VfsM β) : ofExcept (.ok a) >>= f = f a :=
  rfl

/-- A path that does not split is refused as its split is, before anything is resolved. -/
theorem resolveParent_of_error {root : Node Handle} {path : String} {e : FsError}
    (h : splitPath path = .error e) : resolveParent root path = throw e := by
  unfold resolveParent
  rw [h]
  rfl

/-- Resolving the parent of a path that splits is the component walk over all components but
the last, followed by the check that the node reached is a directory. -/
theorem resolveParent_eq_walk {root : Node Handle} {path leaf : String} {names : List String}
    (hc : components path = .ok names) (hl : names.getLast? = some leaf)
    (hfit : leaf.utf8ByteSize ≤ 255) :
    resolveParent root path = (do
      let p ← walk OpenFlags.readOnly root names.dropLast
      if !p.isDir then throw .notDirectory
      pure (p, leaf)) := by
  have hsplit : splitPath path = .ok (join names.dropLast, leaf) :=
    splitPath_eq_ok_iff.mpr ⟨names, hc, hl, hfit, rfl⟩
  unfold resolveParent
  rw [hsplit, ofExcept_ok_bind]
  dsimp only
  rw [resolve_eq_walk root _ _ _ (components_dir hc)]

/-- Once the parent of a path is found, resolving the whole path without creation answers the
child the parent finds under the leaf, and not found when it finds none; the parent's search
changed nothing. -/
theorem run_resolve_of_parent {root p : Node Handle} {path leaf : String} {w w' : Vfs}
    (h : (resolveParent root path).run w = (.ok (p, leaf), w')) :
    w' = w ∧ (resolve root path OpenFlags.readOnly).run w =
      (match ((p.find Handle.inode leaf).run w).1 with
        | .ok (some n) => .ok n
        | .ok none => .error .notFound
        | .error e => .error e, w) := by
  cases hs : splitPath path with
  | error e => rw [resolveParent_of_error hs] at h; cases h
  | ok dl =>
    obtain ⟨d, l⟩ := dl
    obtain ⟨names, hc, hl, hfit, rfl⟩ := splitPath_eq_ok_iff.mp hs
    rw [resolveParent_eq_walk hc hl hfit, run_bind] at h
    rcases hw : (walk OpenFlags.readOnly root names.dropLast).run w with ⟨e | n, w1⟩ <;>
      rw [hw] at h
    · cases h
    -- the walk to the parent reads the tree and changes nothing
    have hw1 : w1 = w := by
      have := congrArg Prod.snd (run_walk OpenFlags.readOnly names.dropLast root w)
      rw [hw] at this
      exact this.trans (finish_state rfl w _)
    subst hw1
    dsimp only at h
    simp only [throw_bind] at h
    split at h
    · cases h
    cases h
    refine ⟨rfl, ?_⟩
    have hnames : names = names.dropLast ++ [leaf] := (List.dropLast_append_getLast? _ hl).symm
    rw [resolve_eq_walk root path _ names hc, hnames, walk_append rfl, run_bind, hw]
    dsimp only
    rw [run_walk, descend, if_neg (by simp [(fits_iff leaf).mpr hfit])]
    generalize ((p.find Handle.inode leaf).run _).1 = r
    rcases r with e | (_ | c) <;> rfl

/-! ## The split and the components together -/

/-- Splitting a path agrees with its components. A path has components exactly when it starts
with a slash, and they are the names the rest of it splits into: its maximal non-empty
slash-free pieces. The split refuses a relative path as unsupported, a path without components
as an invalid argument and a last component longer than 255 bytes as too long; otherwise it
answers the last component as the leaf and a directory that starts with a slash and has exactly
the other components, which the leaf completes to the path's components. Resolving the parent of
a path that does not split is refused as the split is; otherwise it is the component walk over
all components but the last, refused as no directory when the node reached is none. Once the
parent is found, resolving the whole path without creation, in the same state, answers the child
that the parent finds under the leaf, and not found when it finds none. -/
theorem split_path_round_trips :
    (∀ path, components path = .error .unsupportedOperation ↔ path.toList.head? ≠ some '/') ∧
    (∀ path rest names, path.toList = '/' :: rest →
      (components path = .ok names ↔ SplitsInto rest names)) ∧
    (∀ path, path.toList.head? ≠ some '/' → splitPath path = .error .unsupportedOperation) ∧
    (∀ path, components path = .ok [] → splitPath path = .error .invalidArgument) ∧
    (∀ path names leaf, components path = .ok names → names.getLast? = some leaf →
      255 < leaf.utf8ByteSize → splitPath path = .error .componentTooLong) ∧
    (∀ path names leaf, components path = .ok names → names.getLast? = some leaf →
      leaf.utf8ByteSize ≤ 255 → ∃ dir, splitPath path = .ok (dir, leaf) ∧
        dir.toList.head? = some '/' ∧ components dir = .ok names.dropLast ∧
        names.dropLast ++ [leaf] = names) ∧
    (∀ (root : Node Handle) path e, splitPath path = .error e → resolveParent root path = throw e) ∧
    (∀ (root : Node Handle) path names leaf, components path = .ok names →
      names.getLast? = some leaf → leaf.utf8ByteSize ≤ 255 →
      resolveParent root path = (do
        let p ← walk OpenFlags.readOnly root names.dropLast
        if !p.isDir then throw .notDirectory
        pure (p, leaf))) ∧
    (∀ (root p : Node Handle) path leaf (w w' : Vfs),
      (resolveParent root path).run w = (.ok (p, leaf), w') →
      w' = w ∧ (resolve root path OpenFlags.readOnly).run w =
        (match ((p.find Handle.inode leaf).run w).1 with
          | .ok (some n) => .ok n
          | .ok none => .error .notFound
          | .error e => .error e, w)) := by
  refine ⟨components_eq_error_iff, fun path rest names hp => components_eq_ok_iff hp names,
    fun path hrel => splitPath_of_error ((components_eq_error_iff path).mpr hrel),
    fun path h => splitPath_of_nil h, fun path names leaf hc hl hlong => splitPath_of_long hc hl hlong,
    fun path names leaf hc hl hfit => ?_, fun root path e h => resolveParent_of_error h,
    fun root path names leaf hc hl hfit => resolveParent_eq_walk hc hl hfit,
    fun root p path leaf w w' h => run_resolve_of_parent h⟩
  exact ⟨join names.dropLast, splitPath_eq_ok_iff.mpr ⟨names, hc, hl, hfit, rfl⟩,
    toList_join_head _, components_dir hc, List.dropLast_append_getLast? _ hl⟩

end KernelFs.Vfs

