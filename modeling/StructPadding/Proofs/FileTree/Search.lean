-- SUMMARY: What a search below a folder finds, and what stands in its way.
import StructPadding.FileTree.Discover

/-!
# Searches

A search of an open folder finds the source files in it, and in the folders below that are reached through folders that
are not ignored. It finds them all if nothing stands in its way: each folder on the way can be opened and listed to its
end, and each entry can be told for a file or a folder. Otherwise it fails with something that stands in its way.
-/

namespace StructPadding.Discovery

/-! ## Below a folder -/

/-- Whether names lead from entries to a node, each but the last being that of a folder. -/
inductive Holds : List Entry → List String → Node → Prop
  | entry {es : List Entry} {name : String} {node : Node} : .named name node ∈ es → Holds es [name] node
  | under {es : List Entry} {f : Folder} {name : String} {names : List String} {node : Node} :
    .named name (.folder f) ∈ es → Holds f.entries names node → Holds es (name :: names) node

theorem not_holds_nil {names : List String} {node : Node} : ¬ Holds [] names node := nofun

theorem holds_cons {e : Entry} {es : List Entry} {names : List String} {node : Node} :
    Holds (e :: es) names node ↔ Holds [e] names node ∨ Holds es names node := by
  constructor
  · rintro (hmem | ⟨hmem, hbelow⟩)
    · exact (List.mem_cons.1 hmem).imp (fun h => .entry (List.mem_singleton.2 h)) .entry
    · exact (List.mem_cons.1 hmem).imp (fun h => .under (List.mem_singleton.2 h) hbelow) fun h => .under h hbelow
  · rintro (h | h)
    · cases h with
      | entry hmem => exact .entry (List.mem_cons.2 (.inl (List.mem_singleton.1 hmem)))
      | under hmem hbelow => exact .under (List.mem_cons.2 (.inl (List.mem_singleton.1 hmem))) hbelow
    · cases h with
      | entry hmem => exact .entry (List.mem_cons_of_mem _ hmem)
      | under hmem hbelow => exact .under (List.mem_cons_of_mem _ hmem) hbelow

theorem holds_named {name : String} {node n : Node} {names : List String} :
    Holds [.named name node] names n ↔ names = [name] ∧ n = node ∨
      ∃ f names', node = .folder f ∧ names = name :: names' ∧ Holds f.entries names' n := by
  constructor
  · rintro (hmem | ⟨hmem, hbelow⟩)
    · cases List.mem_singleton.1 hmem
      exact .inl ⟨rfl, rfl⟩
    · cases List.mem_singleton.1 hmem
      exact .inr ⟨_, _, rfl, rfl, hbelow⟩
  · rintro (⟨rfl, rfl⟩ | ⟨f, names', rfl, rfl, hbelow⟩)
    · exact .entry (List.mem_singleton_self _)
    · exact .under (List.mem_singleton_self _) hbelow

theorem Holds.ne_nil {es : List Entry} {names : List String} {node : Node} (h : Holds es names node) : names ≠ [] := by
  cases h <;> exact nofun

section

variable (extensions : List String) (recursive : Bool)

/-- Whether a path leads from a folder to one of its source files, or to one below it that is reached through folders
    that are not ignored. -/
def Finds (folder : Path) (es : List Entry) (p : Path) : Prop :=
  ∃ names name text, Holds es (names ++ [name]) (.file text) ∧ isSourceFile extensions name ∧
    (∀ s ∈ names, recursive ∧ ¬ isIgnoredFolder s) ∧ p = (names ++ [name]).foldl Path.entry folder

/-- What stands in the way of a search: a listing breaks off, it cannot be told what an entry is, or a folder that is to
    be searched as well cannot be opened. -/
inductive Blocked : Opened → List Entry → Path × AccessError → Prop
  | listing {o : Opened} {es : List Entry} {e : AccessError} : .fault e ∈ es → Blocked o es (o.path, e)
  | kind {o : Opened} {es : List Entry} {name : String} {e : AccessError} :
    .named name (.lost e) ∈ es → Blocked o es (o.path.entry name, e)
  | opening {o : Opened} {es : List Entry} {name : String} {f : Folder} {x : Path × AccessError} :
    .named name (.folder f) ∈ es → recursive ∧ ¬ isIgnoredFolder name → o.inner name f = .error x → Blocked o es x
  | inside {o opened : Opened} {es : List Entry} {name : String} {f : Folder} {x : Path × AccessError} :
    .named name (.folder f) ∈ es → recursive ∧ ¬ isIgnoredFolder name → o.inner name f = .ok opened →
      Blocked opened f.entries x → Blocked o es x

/-- Whether a search finds what there is to find and nothing stands in its way, or fails with what does. -/
def Answers (o : Opened) (es : List Entry) : Except (Path × AccessError) (List Path) → Prop
  | .ok ps => (∀ p, p ∈ ps ↔ Finds extensions recursive o.path es p) ∧ ∀ x, ¬ Blocked recursive o es x
  | .error x => Blocked recursive o es x

end

variable {extensions : List String} {recursive : Bool} {folder p : Path} {o opened : Opened} {e : Entry}
  {es : List Entry} {name : String} {f : Folder} {x : Path × AccessError}

/-! ## What is found -/

theorem not_finds_nil : ¬ Finds extensions recursive folder [] p := fun ⟨_, _, _, h, _⟩ => not_holds_nil h

theorem finds_cons : Finds extensions recursive folder (e :: es) p ↔
    Finds extensions recursive folder [e] p ∨ Finds extensions recursive folder es p := by
  simp only [Finds, @holds_cons e es, or_and_right, exists_or]

theorem finds_file {text : Except AccessError String} :
    Finds extensions recursive folder [.named name (.file text)] p ↔
      isSourceFile extensions name ∧ p = folder.entry name := by
  constructor
  · rintro ⟨names, last, text', hholds, hsource, -, rfl⟩
    obtain ⟨hnames, -⟩ | ⟨_, _, hnode, -⟩ := holds_named.1 hholds
    · obtain ⟨rfl, hlast⟩ : names = [] ∧ [last] = [name] := by
        simpa [List.append_eq_singleton_iff] using hnames
      cases hlast
      exact ⟨hsource, rfl⟩
    · cases hnode
  · rintro ⟨hsource, rfl⟩
    exact ⟨[], name, text, .entry (List.mem_singleton_self _), hsource, by simp, rfl⟩

theorem finds_folder : Finds extensions recursive folder [.named name (.folder f)] p ↔
    (recursive ∧ ¬ isIgnoredFolder name) ∧ Finds extensions recursive (folder.entry name) f.entries p := by
  constructor
  · rintro ⟨names, last, text, hholds, hsource, hnames, rfl⟩
    obtain ⟨-, hnode⟩ | ⟨f', rest, hnode, hrest, hbelow⟩ := holds_named.1 hholds
    · cases hnode
    · cases hnode
      cases names with
      | nil => exact absurd (List.cons.inj hrest).2.symm hbelow.ne_nil
      | cons first names =>
        obtain ⟨rfl, rfl⟩ := List.cons.inj hrest
        obtain ⟨hfirst, hnames⟩ := List.forall_mem_cons.1 hnames
        exact ⟨hfirst, names, last, text, hbelow, hsource, hnames, rfl⟩
  · rintro ⟨hname, names, last, text, hbelow, hsource, hnames, rfl⟩
    exact ⟨name :: names, last, text, .under (List.mem_singleton_self _) hbelow, hsource,
      List.forall_mem_cons.2 ⟨hname, hnames⟩, rfl⟩

/-! ## What stands in the way -/

theorem Blocked.mono {es' : List Entry} (h : Blocked recursive o es x) (hes : es ⊆ es') :
    Blocked recursive o es' x := by
  cases h with
  | listing hmem => exact .listing (hes hmem)
  | kind hmem => exact .kind (hes hmem)
  | opening hmem hname hfail => exact .opening (hes hmem) hname hfail
  | inside hmem hname hopened hbelow => exact .inside (hes hmem) hname hopened hbelow

theorem not_blocked_nil : ¬ Blocked recursive o [] x := by
  rintro (hmem | hmem | ⟨hmem, -, -⟩ | ⟨hmem, -, -, -⟩) <;> cases hmem

/-- What stands in the way is one of the entries. -/
theorem blocked_iff : Blocked recursive o es x ↔ ∃ e ∈ es, Blocked recursive o [e] x := by
  constructor
  · rintro (hmem | hmem | ⟨hmem, hname, hfail⟩ | ⟨hmem, hname, hopened, hbelow⟩)
    · exact ⟨_, hmem, .listing (List.mem_singleton_self _)⟩
    · exact ⟨_, hmem, .kind (List.mem_singleton_self _)⟩
    · exact ⟨_, hmem, .opening (List.mem_singleton_self _) hname hfail⟩
    · exact ⟨_, hmem, .inside (List.mem_singleton_self _) hname hopened hbelow⟩
  · rintro ⟨e, he, h⟩
    exact h.mono (by simpa using he)

theorem blocked_cons :
    Blocked recursive o (e :: es) x ↔ Blocked recursive o [e] x ∨ Blocked recursive o es x := by
  rw [blocked_iff, @blocked_iff recursive o es]
  simp

theorem not_blocked_file {text : Except AccessError String} : ¬ Blocked recursive o [.named name (.file text)] x := by
  rintro (hmem | hmem | ⟨hmem, -, -⟩ | ⟨hmem, -, -, -⟩) <;> cases List.mem_singleton.1 hmem

theorem blocked_folder : Blocked recursive o [.named name (.folder f)] x ↔
    (recursive ∧ ¬ isIgnoredFolder name) ∧
      (o.inner name f = .error x ∨ ∃ opened, o.inner name f = .ok opened ∧ Blocked recursive opened f.entries x) := by
  constructor
  · rintro (hmem | hmem | ⟨hmem, hname, hfail⟩ | ⟨hmem, hname, hopened, hbelow⟩) <;>
      cases List.mem_singleton.1 hmem
    · exact ⟨hname, .inl hfail⟩
    · exact ⟨hname, .inr ⟨_, hopened, hbelow⟩⟩
  · rintro ⟨hname, hfail | ⟨opened, hopened, hbelow⟩⟩
    · exact .opening (List.mem_singleton_self _) hname hfail
    · exact .inside (List.mem_singleton_self _) hname hopened hbelow

/-! ## Searches -/

theorem of_ofFolder {room : Nat} (h : Opened.ofFolder room p f = .ok opened) :
    opened.path = p ∧ opened.closed = f.closed := by
  unfold Opened.ofFolder at h
  split at h
  · cases h
  split at h <;> cases h
  exact ⟨rfl, rfl⟩

/-- A folder is opened in one that one is let into. -/
theorem inner_eq_ok_iff : o.inner name f = .ok opened ↔
    Opened.ofFolder o.room (o.path.entry name) f = .ok opened ∧ o.closed = none := by
  unfold Opened.inner
  split <;> simp_all

/-- A search of entries is one of the first of them, and then one of the others. -/
theorem Answers.cons {r s : Except (Path × AccessError) (List Path)} (hr : Answers extensions recursive o [e] r)
    (hs : Answers extensions recursive o es s) :
    Answers extensions recursive o (e :: es) (do let found ← r; return found ++ (← s)) := by
  match r, s with
  | .error _, _ => exact blocked_cons.2 (.inl hr)
  | .ok _, .error _ => exact blocked_cons.2 (.inr hs)
  | .ok found, .ok others =>
    refine ⟨fun p => ?_, fun x hx => ?_⟩
    · rw [List.mem_append, hr.1, hs.1]
      exact finds_cons.symm
    · exact (blocked_cons.1 hx).elim (hr.2 x) (hs.2 x)

mutual

theorem answers_ofEntries (extensions : List String) (recursive : Bool) (o : Opened) : ∀ es : List Entry,
    Answers extensions recursive o es (ofEntries extensions recursive o es)
  | [] => ⟨fun _ => ⟨fun h => absurd h List.not_mem_nil, fun h => absurd h not_finds_nil⟩, fun _ => not_blocked_nil⟩
  | .fault e :: es =>
    .cons (r := .error (o.path, e)) (.listing (List.mem_singleton_self _)) (answers_ofEntries extensions recursive o es)
  | .named name node :: es =>
    .cons (answers_ofNode extensions recursive o name node) (answers_ofEntries extensions recursive o es)

theorem answers_ofNode (extensions : List String) (recursive : Bool) (o : Opened) (name : String) : ∀ node : Node,
    Answers extensions recursive o [.named name node] (ofNode extensions recursive o name node)
  | .file text => by
    refine ⟨fun p => ?_, fun x => not_blocked_file⟩
    rw [finds_file]
    by_cases hsource : isSourceFile extensions name <;> simp [hsource]
  | .lost e => .kind (List.mem_singleton_self _)
  | .folder ⟨closed, es⟩ => by
    simp only [ofNode]
    split
    · next hskip =>
      -- a folder that is not searched has nothing to find
      have hno : ¬ (recursive ∧ ¬ isIgnoredFolder name) := by grind
      exact ⟨fun p => ⟨nofun, fun h => absurd (finds_folder.1 h).1 hno⟩,
        fun x hx => absurd (blocked_folder.1 hx).1 hno⟩
    next henter =>
    have hyes : recursive ∧ ¬ isIgnoredFolder name := by simpa using henter
    cases hopened : o.inner name ⟨closed, es⟩ with
    | error x => exact blocked_folder.2 ⟨hyes, .inl hopened⟩
    | ok opened =>
      have hbelow := answers_ofEntries extensions recursive opened es
      have hpath : opened.path = o.path.entry name := (of_ofFolder (inner_eq_ok_iff.1 hopened).1).1
      simp only [bind, Except.bind]
      revert hbelow
      match ofEntries extensions recursive opened es with
      | .error x => exact fun hbelow => blocked_folder.2 ⟨hyes, .inr ⟨opened, hopened, hbelow⟩⟩
      | .ok ps =>
        refine fun hbelow => ⟨fun p => ?_, fun x hx => ?_⟩
        · rw [hbelow.1, hpath, finds_folder, and_iff_right hyes]
        · rcases (blocked_folder.1 hx).2 with hfail | ⟨opened', hopened', hx⟩
          · cases hopened.symm.trans hfail
          · cases hopened.symm.trans hopened'
            exact hbelow.2 x hx

end

end StructPadding.Discovery
