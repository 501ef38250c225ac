-- SUMMARY: Trees that differ in the order of their entries only, and what is found in them.
import Mathlib.Data.List.Forall2
import StructPadding.Proofs.FileTree.Search

/-!
# Order of entries

The entries of a folder are listed in any order. Two trees are the same but for that order if one becomes the other by
exchanging neighbours with different names, in any of its folders. Then every path leads to the same in both, and below
a folder the same files are found, in some order, unless the same stands in the way.
-/

namespace StructPadding

/-! ## Reordered trees -/

mutual

/-- Whether a node is another one with the entries of its folders in another order. -/
inductive Node.Alike : Node → Node → Prop
  | file (text : Except AccessError String) : Node.Alike (.file text) (.file text)
  | folder {f f' : Folder} :
    f.closed = f'.closed → Entry.Reordered f.entries f'.entries → Node.Alike (.folder f) (.folder f')
  | lost (e : AccessError) : Node.Alike (.lost e) (.lost e)

inductive Entry.Alike : Entry → Entry → Prop
  | named (name : String) {node node' : Node} :
    Node.Alike node node' → Entry.Alike (.named name node) (.named name node')
  | fault (e : AccessError) : Entry.Alike (.fault e) (.fault e)

/-- Whether entries are other ones in another order, which may also be so below them. -/
inductive Entry.Reordered : List Entry → List Entry → Prop
  | nil : Entry.Reordered [] []
  | cons {e e' : Entry} {es es' : List Entry} :
    Entry.Alike e e' → Entry.Reordered es es' → Entry.Reordered (e :: es) (e' :: es')
  | swap {e e' : Entry} (es : List Entry) :
    (∀ name, e.name? = some name → e'.name? ≠ some name) → Entry.Reordered (e :: e' :: es) (e' :: e :: es)
  | trans {es es' es'' : List Entry} :
    Entry.Reordered es es' → Entry.Reordered es' es'' → Entry.Reordered es es''

end

/-- Whether a folder is another one with its entries in another order. -/
structure Folder.Reordered (f f' : Folder) : Prop where
  closed : f.closed = f'.closed
  entries : Entry.Reordered f.entries f'.entries

/-- Whether a tree is another one with the entries of its folders in another order. -/
structure FileTree.Reordered (t t' : FileTree) : Prop where
  root : t.root.Reordered t'.root
  working : t.working = t'.working
  room : t.room = t'.room

mutual

theorem Node.Alike.refl : ∀ node : Node, node.Alike node
  | .file text => .file text
  | .folder ⟨_, es⟩ => .folder rfl (Entry.Reordered.refl es)
  | .lost e => .lost e

theorem Entry.Alike.refl : ∀ e : Entry, e.Alike e
  | .named name node => .named name (Node.Alike.refl node)
  | .fault e => .fault e

theorem Entry.Reordered.refl : ∀ es : List Entry, Entry.Reordered es es
  | [] => .nil
  | e :: es => .cons (Entry.Alike.refl e) (Entry.Reordered.refl es)

end

theorem Node.Alike.trans {node node' node'' : Node} (h : node.Alike node') (h' : node'.Alike node'') :
    node.Alike node'' := by
  cases h with
  | file => exact h'
  | lost => exact h'
  | folder hclosed h =>
    cases h' with
    | folder hclosed' h' => exact .folder (hclosed.trans hclosed') (h.trans h')

theorem Entry.Alike.trans {e e' e'' : Entry} (h : e.Alike e') (h' : e'.Alike e'') : e.Alike e'' := by
  cases h with
  | fault => exact h'
  | named name h =>
    cases h' with
    | named _ h' => exact .named name (h.trans h')

namespace Entry

/-- Entries with different names may be in any order. -/
theorem Reordered.of_perm {es es' : List Entry} (h : es.Perm es') (hes : areProper es) : Reordered es es' := by
  have hnames := (areProper_iff.1 hes).2
  have hsymm (l : List Entry) (e e' : Entry) (h : ∀ name, e.name? = some name → e'.name? ≠ some name) :
      ∀ name, e'.name? = some name → e.name? ≠ some name := fun name he' he => h name he he'
  clear hes
  induction h with
  | nil => exact .nil
  | cons e _ ih => exact .cons (.refl e) (ih (List.pairwise_cons.1 hnames).2)
  | swap e e' es => exact .swap es ((List.pairwise_cons.1 hnames).1 e (List.mem_cons_self ..))
  | trans h _ ih ih' => exact .trans (ih hnames) (ih' ((h.pairwise_iff (hsymm [] _ _)).1 hnames))

/-- What is in one order of the entries is in the other. -/
theorem Reordered.exists_mem {es es' : List Entry} (h : Reordered es es') {e' : Entry} (he' : e' ∈ es') :
    ∃ e ∈ es, e.Alike e' := by
  match h with
  | .nil => cases he'
  | .cons halike hrest =>
    rcases List.mem_cons.1 he' with rfl | he'
    · exact ⟨_, List.mem_cons_self .., halike⟩
    · obtain ⟨e, he, h⟩ := hrest.exists_mem he'
      exact ⟨e, List.mem_cons_of_mem _ he, h⟩
  | .swap es _ => exact ⟨e', by simpa [or_left_comm] using he', .refl e'⟩
  | .trans h h' =>
    obtain ⟨e, he, halike⟩ := h'.exists_mem he'
    obtain ⟨e₀, he₀, halike₀⟩ := h.exists_mem he
    exact ⟨e₀, he₀, halike₀.trans halike⟩

end Entry

/-! ## Paths -/

namespace Folder

theorem rel_alike_refl (node? : Option Node) : Option.Rel Node.Alike node? node? := by
  cases node? with
  | none => exact .none
  | some node => exact .some (.refl node)

theorem rel_alike_trans {x y z : Option Node} (h : Option.Rel Node.Alike x y) (h' : Option.Rel Node.Alike y z) :
    Option.Rel Node.Alike x z := by
  cases h with
  | none => exact h'
  | some h =>
    cases h' with
    | some h' => exact .some (h.trans h')

end Folder

open Folder in
/-- What has a name in a folder has it in every order of the entries, up to the order of its own entries. -/
theorem Entry.Reordered.rel_node? {es es' : List Entry} (h : Reordered es es') (closed : Option AccessError)
    (s : String) : Option.Rel Node.Alike (node? ⟨closed, es⟩ s) (node? ⟨closed, es'⟩ s) := by
  match h with
  | .nil => exact .none
  | .cons (.fault _) hrest => simpa [node?_cons] using hrest.rel_node? closed s
  | .cons (.named name hnode) hrest =>
    rw [node?_cons, node?_cons]
    by_cases hs : name = s
    · simpa [hs] using Option.Rel.some hnode
    · simpa [hs] using hrest.rel_node? closed s
  | @Reordered.swap e e' es hne =>
    have hsame : node? ⟨closed, e :: e' :: es⟩ s = node? ⟨closed, e' :: e :: es⟩ s := by
      cases e <;> cases e' <;> simp only [node?_cons]
      · next name _ name' _ =>
        have hne : name' ≠ name := fun heq => hne name rfl (congrArg some heq)
        split <;> split <;> simp_all
    exact hsame ▸ rel_alike_refl _
  | .trans h h' => exact rel_alike_trans (h.rel_node? closed s) (h'.rel_node? closed s)

theorem Folder.Reordered.rel_node? {f f' : Folder} (h : f.Reordered f') (s : String) :
    Option.Rel Node.Alike (f.node? s) (f'.node? s) := by
  obtain ⟨closed, es⟩ := f
  obtain ⟨closed', es'⟩ := f'
  obtain rfl : closed = closed' := h.closed
  exact h.entries.rel_node? closed s

namespace FileTree

/-- Whether two results are the same failure, or nodes that differ in the order of entries. -/
inductive SameNode : Except AccessError Node → Except AccessError Node → Prop
  | ok {node node' : Node} : node.Alike node' → SameNode (.ok node) (.ok node')
  | error (e : AccessError) : SameNode (.error e) (.error e)

variable {t t' : FileTree}

/-- Pieces lead to the same from folders that differ in the order of entries. -/
theorem walk_reordered {here here' : Folder} {above above' : List Folder} (hhere : here.Reordered here')
    (habove : List.Forall₂ Folder.Reordered above above') (pieces : List String) :
    SameNode (walk here above pieces) (walk here' above' pieces) := by
  induction pieces generalizing here here' above above' with
  | nil => exact .ok (.folder hhere.closed hhere.entries)
  | cons piece rest ih =>
    simp only [walk, ← hhere.closed]
    split
    · exact ih hhere habove
    split
    · exact .error _
    split
    · exact ih hhere habove
    split
    · cases habove with
      | nil => exact ih hhere .nil
      | cons hparent habove => exact ih hparent habove
    split
    · exact .error _
    have hnode := hhere.rel_node? piece
    generalize here.node? piece = x at hnode
    generalize here'.node? piece = y at hnode
    cases hnode with
    | none => exact .error _
    | some hnode =>
      cases hnode with
      | folder hclosed hes => exact ih ⟨hclosed, hes⟩ (.cons hhere habove)
      | lost => exact .error _
      | file text =>
        simp only
        split
        · exact .ok (.file text)
        · exact .error _

/-- Where one stands in trees that differ in the order of entries. -/
theorem Reordered.stand (h : t.Reordered t') (place : Place) :
    Option.Rel (fun s s' => s.1.Reordered s'.1 ∧ List.Forall₂ Folder.Reordered s.2 s'.2) (t.stand place)
      (t'.stand place) := by
  induction place with
  | nil => exact .some ⟨h.root, .nil⟩
  | cons s place ih =>
    simp only [FileTree.stand, Option.bind_eq_bind]
    generalize t.stand place = x at ih
    generalize t'.stand place = y at ih
    cases ih with
    | none => exact .none
    | @some here here' hhere =>
      obtain ⟨hfolder, habove⟩ := hhere
      simp only [Option.bind_some]
      have hnode := hfolder.rel_node? s
      generalize here.1.node? s = x at hnode
      generalize here'.1.node? s = y at hnode
      cases hnode with
      | none => exact .none
      | some hnode =>
        cases hnode with
        | folder hclosed hes => exact .some ⟨⟨hclosed, hes⟩, .cons hfolder habove⟩
        | lost => exact .none
        | file => exact .none

/-- A path leads to the same in trees that differ in the order of entries. -/
theorem Reordered.lookup (h : t.Reordered t') (p : Path) : SameNode (t.lookup p) (t'.lookup p) := by
  unfold FileTree.lookup
  split
  · exact .error _
  split
  · exact .error _
  split
  · exact .error _
  have hstart : t.start p = t'.start p := by rw [start, start, h.working]
  have hstand := h.stand (t.start p)
  rw [hstart] at hstand
  rw [hstart, walkFrom, walkFrom]
  generalize t.stand (t'.start p) = x at hstand
  generalize t'.stand (t'.start p) = y at hstand
  cases hstand with
  | none => exact .error _
  | some hhere => exact walk_reordered hhere.1 hhere.2 p.pieces

end FileTree

/-! ## Discovery -/

namespace Discovery

open FileTree

/-- Whether two searches both fail, or find the same paths in some order. -/
inductive SameFound : Except (Path × AccessError) (List Path) → Except (Path × AccessError) (List Path) → Prop
  | ok {ps ps' : List Path} : ps.Perm ps' → SameFound (.ok ps) (.ok ps')
  | error (x x' : Path × AccessError) : SameFound (.error x) (.error x')

theorem SameFound.refl (r : Except (Path × AccessError) (List Path)) : SameFound r r := by
  cases r with
  | ok ps => exact .ok (.refl ps)
  | error x => exact .error x x

theorem SameFound.trans {r s u : Except (Path × AccessError) (List Path)} (h : SameFound r s) (h' : SameFound s u) :
    SameFound r u := by
  cases h with
  | ok h =>
    cases h' with
    | ok h' => exact .ok (h.trans h')
  | error x x' =>
    cases h' with
    | error => exact .error _ _

variable {extensions : List String} {recursive : Bool}

theorem ofEntries_cons (o : Opened) (e : Entry) (es : List Entry) :
    ofEntries extensions recursive o (e :: es) = do
      let found ← ofEntry extensions recursive o e
      return found ++ (← ofEntries extensions recursive o es) := rfl

/-- Two searches that go on alike. -/
theorem SameFound.append {r r' s s' : Except (Path × AccessError) (List Path)} (hr : SameFound r r')
    (hs : SameFound s s') :
    SameFound (do let found ← r; return found ++ (← s)) (do let found ← r'; return found ++ (← s')) := by
  cases hr with
  | error => exact .error _ _
  | ok hr =>
    cases hs with
    | error => exact .error _ _
    | ok hs => exact .ok (hr.append hs)

/-- How a folder is opened depends on it only by whether one is let into it. -/
theorem ofFolder_congr {f f' : Folder} (h : f.closed = f'.closed) (room : Nat) (p : Path) :
    Opened.ofFolder room p f = Opened.ofFolder room p f' := by
  simp only [Opened.ofFolder, h]

theorem inner_congr {f f' : Folder} (h : f.closed = f'.closed) (o : Opened) (name : String) :
    o.inner name f = o.inner name f' := by
  simp only [Opened.inner, ofFolder_congr h]

mutual

/-- Below a folder the same files are found in every order of its entries. -/
theorem ofEntries_reordered {es es' : List Entry} (h : Entry.Reordered es es') (o : Opened) :
    SameFound (ofEntries extensions recursive o es) (ofEntries extensions recursive o es') := by
  match h with
  | .nil => exact .refl _
  | .cons (.fault e) hrest => exact .append (.error _ _) (ofEntries_reordered hrest o)
  | .cons (.named name hnode) hrest => exact .append (ofNode_reordered hnode o name) (ofEntries_reordered hrest o)
  | @Entry.Reordered.swap e e' es _ =>
    simp only [ofEntries_cons]
    cases ofEntry extensions recursive o e with
    | error =>
      cases ofEntry extensions recursive o e' <;> exact .error _ _
    | ok found =>
      cases ofEntry extensions recursive o e' with
      | error => exact .error _ _
      | ok found' =>
        cases ofEntries extensions recursive o es with
        | error => exact .error _ _
        | ok rest => exact .ok (by
            simpa only [← List.append_assoc] using (@List.perm_append_comm _ found found').append_right rest)
  | .trans h h' => exact (ofEntries_reordered h o).trans (ofEntries_reordered h' o)

theorem ofNode_reordered {node node' : Node} (h : node.Alike node') (o : Opened) (name : String) :
    SameFound (ofNode extensions recursive o name node) (ofNode extensions recursive o name node') := by
  match h with
  | .file text => exact .refl _
  | .lost e => exact .refl _
  | @Node.Alike.folder ⟨closed, es⟩ ⟨closed', es'⟩ hclosed hes =>
    have hopen : o.inner name ⟨closed, es⟩ = o.inner name ⟨closed', es'⟩ := inner_congr hclosed o name
    simp only [ofNode, hopen]
    split
    · exact .refl _
    cases o.inner name ⟨closed', es'⟩ with
    | error x => exact .error x x
    | ok opened => exact ofEntries_reordered hes opened

end

/-- A pattern names the same files in trees that differ in the order of entries. -/
theorem ofPattern_reordered (extensions : List String) {t t' : FileTree} (h : t.Reordered t') (p : Pattern) :
    SameFound (ofPattern extensions t p) (ofPattern extensions t' p) := by
  have hroot := h.lookup p.root
  unfold ofPattern
  generalize t.lookup p.root = x at hroot
  generalize t'.lookup p.root = y at hroot
  cases hroot with
  | error e => exact .refl _
  | ok hnode =>
    cases hnode with
    | file text => exact .refl _
    | lost e => exact .refl _
    | @folder f f' hclosed hes =>
      simp only [h.room, ofFolder_congr hclosed]
      cases Opened.ofFolder t'.room p.root f' with
      | error x => exact .error x x
      | ok opened => exact ofEntries_reordered hes opened

/-- What stands in the way of a search does so in every order of the entries. -/
theorem Blocked.of_reordered {o : Opened} {es es' : List Entry} {x : Path × AccessError}
    (h : Blocked recursive o es' x) (hes : Entry.Reordered es es') : Blocked recursive o es x := by
  induction h generalizing es with
  | listing hmem =>
    obtain ⟨_, he, halike⟩ := hes.exists_mem hmem
    cases halike
    exact .listing he
  | kind hmem =>
    obtain ⟨_, he, halike⟩ := hes.exists_mem hmem
    cases halike with
    | named _ hnode =>
      cases hnode
      exact .kind he
  | opening hmem hname hfail =>
    obtain ⟨_, he, halike⟩ := hes.exists_mem hmem
    cases halike with
    | named _ hnode =>
      cases hnode with
      | folder hclosed _ => exact .opening he hname (inner_congr hclosed .. ▸ hfail)
  | inside hmem hname hopened _ ih =>
    obtain ⟨_, he, halike⟩ := hes.exists_mem hmem
    cases halike with
    | named _ hnode =>
      cases hnode with
      | folder hclosed hinner => exact .inside he hname (inner_congr hclosed .. ▸ hopened) (ih hinner)

end Discovery

end StructPadding
