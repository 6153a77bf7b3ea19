import NasFirmware.Tar.Archive

/-!
# Looking up files

What is found in an archive after files were added, replaced or dropped.

* **`Rewritten.find_self`**, **`Rewritten.find_other`**: after a file was written;
* `putFile`, `dropFiles`: the whole list of files after a write and a deletion; **`Rewritten.contents`**.
-/

namespace NasFirmware.Tar

section Find

variable {p q src : List UInt8} {es out : List Entry} {e : Entry}

theorem find_append (q : List UInt8) (es fs : List Entry) :
    find q (es ++ fs) = (find q es).or (find q fs) := by
  unfold find
  rw [List.find?_append]
  cases es.find? fun e => e.name == q with
  | none => rfl
  | some e => rfl

theorem find_cons_self (e : Entry) (es : List Entry) : find e.name (e :: es) = some e.data := by
  unfold find
  rw [List.find?_cons_of_pos (by simp), Option.map_some]

theorem find_cons_ne (h : e.name ≠ q) (es : List Entry) : find q (e :: es) = find q es := by
  unfold find
  rw [List.find?_cons_of_neg (by simpa using h)]

theorem find_eq_none (h : ∀ e ∈ es, e.name ≠ q) : find q es = none := by
  unfold find
  rw [List.find?_eq_none.mpr (by simpa using h), Option.map_none]

theorem find_isSome (he : e ∈ es) : (find e.name es).isSome = true := by
  unfold find
  rw [Option.isSome_map, List.find?_isSome]
  exact ⟨e, he, by simp⟩

theorem find_filter (h : ¬ p <+: q) : find q (es.filter fun e => !e.matches p) = find q es := by
  unfold find
  rw [List.find?_filter]
  congr 2
  funext e
  by_cases hq : e.name = q
  · have hno : e.matches p = false := by
      rw [Bool.eq_false_iff, Ne, Entry.matches_iff, hq]
      exact h
    simp [hq, hno]
  · simp [hq]

theorem find_filter_none (h : p <+: q) : find q (es.filter fun e => !e.matches p) = none := by
  refine find_eq_none fun e he hq => ?_
  have hno := (List.mem_filter.mp he).2
  rw [Entry.matches_iff.mpr (hq ▸ h)] at hno
  cases hno

theorem find_of_no_match (h : ∀ e ∈ es, e.matches p = false) (hq : p <+: q) : find q es = none := by
  refine find_eq_none fun e he hname => ?_
  have := h e he
  rw [Entry.matches_iff.mpr (hname ▸ hq)] at this
  cases this

theorem Rewritten.find_self (h : Rewritten p src es out) : find p out = some src := by
  cases h with
  | append hno hname hdata _ _ =>
    rw [find_append, find_of_no_match hno (List.prefix_refl p), Option.none_or, ← hdata, ← hname]
    exact find_cons_self ..
  | replace hno _ hname hdata _ _ =>
    rw [find_append, find_of_no_match hno (List.prefix_refl p), Option.none_or, ← hdata, ← hname]
    exact find_cons_self ..

/-- Under other names nothing changes, but names that start with the path are lost. -/
theorem Rewritten.find_other (h : Rewritten p src es out) (hne : q ≠ p) :
    find q out = if p <+: q then none else find q es := by
  cases h with
  | append hno hname _ _ _ =>
    rw [find_append, find_cons_ne (by rw [hname]; exact hne.symm)]
    split_ifs with hq
    · rw [find_of_no_match hno hq]
      rfl
    · exact Option.or_none
  | @replace l r e e' hno hmatch hname _ _ _ =>
    rw [find_append, find_cons_ne (by rw [hname]; exact hne.symm)]
    split_ifs with hq
    · rw [find_of_no_match hno hq, find_filter_none hq]
      rfl
    · have he : e.name ≠ q := fun h' => hq (h' ▸ Entry.matches_iff.mp hmatch)
      rw [find_filter hq, find_append, find_cons_ne he]

end Find

/-! ## The files -/

abbrev File := List UInt8 × List UInt8

def contents (es : List Entry) : List File := es.map fun e => (e.name, e.data)

/-- A file is written: the first one whose name starts with `path` is replaced, and the others are dropped. -/
def putFile (path data : List UInt8) : List File → List File
  | [] => [(path, data)]
  | file :: files =>
    if path.isPrefixOf file.1 then (path, data) :: files.filter fun g => !path.isPrefixOf g.1
    else file :: putFile path data files

def dropFiles (path : List UInt8) (files : List File) : List File := files.filter fun g => !path.isPrefixOf g.1

section Files

variable {path data : List UInt8} {es out : List Entry}

theorem contents_filter (path : List UInt8) (es : List Entry) :
    contents (es.filter fun e => !e.matches path) = dropFiles path (contents es) := by
  rw [dropFiles, contents, contents, List.filter_map]
  rfl

theorem putFile_of_no_match {e' : Entry} (hno : ∀ e ∈ es, e.matches path = false) (hname : e'.name = path) :
    putFile path e'.data (contents es) = contents (es ++ [e']) := by
  induction es with
  | nil =>
    rw [← hname]
    rfl
  | cons e es ih =>
    rw [List.forall_mem_cons] at hno
    show putFile _ _ ((e.name, e.data) :: contents es) = (e.name, e.data) :: contents (es ++ [e'])
    rw [putFile, if_neg (by rw [show path.isPrefixOf e.name = false from hno.1]; exact Bool.false_ne_true), ih hno.2]

theorem putFile_of_match {l r : List Entry} {e e' : Entry} (hno : ∀ e ∈ l, e.matches path = false)
    (hmatch : e.matches path = true) (hname : e'.name = path) :
    putFile path e'.data (contents (l ++ e :: r)) = contents (l ++ e' :: r.filter fun e => !e.matches path) := by
  induction l with
  | nil =>
    show putFile _ _ ((e.name, e.data) :: contents r) = (e'.name, e'.data) :: contents (r.filter _)
    rw [putFile, if_pos (show path.isPrefixOf e.name = true from hmatch), contents_filter, hname]
    rfl
  | cons x l ih =>
    rw [List.forall_mem_cons] at hno
    show putFile _ _ ((x.name, x.data) :: contents (l ++ e :: r)) = (x.name, x.data) :: contents (l ++ _)
    rw [putFile, if_neg (by rw [show path.isPrefixOf x.name = false from hno.1]; exact Bool.false_ne_true), ih hno.2]

theorem Rewritten.contents (h : Rewritten path data es out) :
    Tar.contents out = putFile path data (Tar.contents es) := by
  cases h with
  | append hno hname hdata _ _ => rw [← hdata, putFile_of_no_match hno hname]
  | replace hno hmatch hname hdata _ _ => rw [← hdata, putFile_of_match hno hmatch hname]

theorem Rewritten.of_no_match (h : Rewritten path data es out) (hno : ∀ e ∈ es, e.matches path = false) :
    ∃ e', out = es ++ [e'] ∧ e'.bytes.length = 512 + blocks data.length := by
  cases h with
  | append _ _ _ hlen _ => exact ⟨_, rfl, hlen⟩
  | @replace l r e e' _ hmatch =>
    rw [hno e (List.mem_append_right _ List.mem_cons_self)] at hmatch
    cases hmatch

theorem Rewritten.cons {root : Entry} (h : Rewritten path data (root :: es) out) (hroot : root.matches path = false) :
    ∃ out', out = root :: out' ∧ Rewritten path data es out' := by
  generalize hes : root :: es = xs at h
  cases h with
  | append hno hname hdata hlen hrtk =>
    subst hes
    exact ⟨_, rfl, .append (List.forall_mem_cons.mp hno).2 hname hdata hlen hrtk⟩
  | @replace l r e e' hno hmatch hname hdata hlen hrtk =>
    cases l with
    | nil =>
      cases hes
      rw [hroot] at hmatch
      cases hmatch
    | cons x l =>
      cases hes
      exact ⟨_, rfl, .replace (List.forall_mem_cons.mp hno).2 hmatch hname hdata hlen hrtk⟩

theorem Rewritten.unsigned (h : Rewritten path data es out) (hes : ∀ e ∈ es, e.isRtk = false) :
    ∀ e ∈ out, e.isRtk = false := by
  cases h with
  | append _ _ _ _ hrtk =>
    intro e he
    rcases List.mem_append.mp he with he | he
    · exact hes e he
    · rw [List.mem_singleton.mp he]
      exact hrtk
  | @replace l r x e' _ _ _ _ _ hrtk =>
    intro e he
    rcases List.mem_append.mp he with he | he
    · exact hes e (List.mem_append_left _ he)
    · rcases List.mem_cons.mp he with rfl | he
      · rw [hrtk]
        exact hes x (List.mem_append_right _ List.mem_cons_self)
      · exact hes e (List.mem_append_right _ (List.mem_cons_of_mem _ (List.mem_of_mem_filter he)))

end Files

end NasFirmware.Tar
