import Uwuubox.Gc.Inspect
import Uwuubox.Prog.Turns
import Uwuubox.Server.Handler

/-!
# The walk through the local store

`local_inventory` of `src/routes/gc.rs`: a stack of directories, and a map of what has been found.  Other requests write
and remove files in between, so that each turn sees a file system of its own.

* `Path`, `keyOf` — paths below the root of the store, and their keys; two paths have two keys.
* `FileSystem`, `readDir` — what is at each path; `StoreSeen` — what one turn sees, and whether its call fails.
* `Walk`, `localTurn`, `localInventory` — the variables of the walk, and its turns.
* `walk_complete` — **a file that stays where it is is found**; `walk_sound` — what is found has been there.
* `walk_ends` — the walk ends, when nothing changes and no call fails.
-/

namespace Uwuubox
namespace Gc

open Storage Table

/-! ## The map -/

/-- `BTreeMap::insert` -/
def insertKey (inventory : List (ObjKey × ℕ)) (key : ObjKey) (bytes : ℕ) : List (ObjKey × ℕ) :=
  (key, bytes) :: inventory.filter fun o => o.1 ≠ key

theorem storedBytes_insertKey {inventory : List (ObjKey × ℕ)} {key key' : ObjKey} {bytes : ℕ} :
    storedBytes (insertKey inventory key bytes) key' =
      if key' = key then some bytes else storedBytes inventory key' := by
  unfold storedBytes insertKey
  by_cases heq : key' = key
  · subst heq
    simp
  · rw [List.find?_cons_of_neg (by simpa using Ne.symm heq), List.find?_filter, if_neg heq]
    congr 2
    funext o
    by_cases ho : o.1 = key'
    · simp [ho, heq]
    · simp [ho]

/-! ## Paths -/

/-- What a file is called in its directory. -/
@[ext] structure Name where
  text : List Char
  nonempty : text ≠ []
  noSlash : '/' ∉ text
deriving DecidableEq

/-- A path below the root of the store. -/
abbrev Path := List Name

/-- The key of a path: its names, with a slash between two of them. -/
def keyOf (path : Path) : ObjKey := ['/'].intercalate (path.map Name.text)

/-- `format!("{key_prefix}/{name}")` -/
def childKey (keyPrefix : ObjKey) (name : Name) : ObjKey := keyPrefix ++ '/' :: name.text

theorem keyOf_cons_cons (first second : Name) (rest : Path) :
    keyOf (first :: second :: rest) = first.text ++ '/' :: keyOf (second :: rest) := by
  unfold keyOf
  rw [List.map_cons, List.map_cons, List.intercalate_cons_cons]
  simp

theorem keyOf_concat {path : Path} (hpath : path ≠ []) (name : Name) :
    keyOf (path ++ [name]) = childKey (keyOf path) name := by
  unfold childKey
  induction path with
  | nil => exact absurd rfl hpath
  | cons first rest ih =>
    cases rest with
    | nil => simp [keyOf, List.intercalate_cons_cons]
    | cons second rest =>
      have hrest := ih (List.cons_ne_nil _ _)
      rw [List.cons_append] at hrest
      rw [List.cons_append, List.cons_append, keyOf_cons_cons, hrest, keyOf_cons_cons, List.append_assoc]
      rfl

/-- **Two paths have two keys.** -/
theorem keyOf_injective {path path' : Path} (hpath : path ≠ []) (hpath' : path' ≠ []) (h : keyOf path = keyOf path') :
    path = path' := by
  have hslash : ∀ p : Path, ∀ t ∈ p.map Name.text, '/' ∉ t := by
    intro p t ht
    obtain ⟨name, -, rfl⟩ := List.mem_map.1 ht
    exact name.noSlash
  have hsplit := congrArg (List.splitOn '/') h
  unfold keyOf at hsplit
  rw [List.splitOn_intercalate '/' (hslash path) (by simpa using hpath),
    List.splitOn_intercalate '/' (hslash path') (by simpa using hpath')] at hsplit
  exact List.map_injective_iff.2 (fun _ _ => Name.ext) hsplit

/-! ## The file system -/

/-- What `file_type` tells. -/
inductive Kind where
  | file
  | dir
  /-- A symbolic link, a socket, a device. -/
  | other
deriving DecidableEq

/-- What is at a path. -/
structure Node where
  kind : Kind
  len : ℕ
deriving DecidableEq

/-- What is below the root of the store: what is there is in a directory that is there. -/
structure FileSystem where
  nodes : Keyed (Prod.fst : Path × Node → Path)
  parents : ∀ entry ∈ nodes.rows, entry.1.length ≤ 1 ∨
    ∃ parent ∈ nodes.rows, parent.1 = entry.1.dropLast ∧ parent.2.kind = .dir

namespace FileSystem

variable (fs : FileSystem)

/-- What is at a path. -/
def node? (path : Path) : Option Node := (fs.nodes.find? path).map Prod.snd

/-- The name and the kind of what is in a directory. -/
def childOf (dir : Path) (entry : Path × Node) : Option (Name × Kind) :=
  if entry.1.dropLast = dir then entry.1.getLast?.map fun name => (name, entry.2.kind) else none

/-- What `read_dir` and `next_entry` give. -/
inductive Listing where
  | entries (entries : List (Name × Kind))
  | notFound
  | failed

/-- `read_dir`, and `next_entry` until there is none. -/
def readDir (dir : Path) : Listing :=
  match fs.node? dir with
  | none => .notFound
  | some node => if node.kind = .dir then .entries (fs.nodes.rows.filterMap (childOf dir)) else .failed

variable {fs} {dir path : Path} {name : Name} {kind : Kind} {node : Node}

theorem node?_eq_some : fs.node? path = some node ↔ (path, node) ∈ fs.nodes := by
  unfold node?
  rw [Option.map_eq_some_iff]
  constructor
  · rintro ⟨⟨path', node'⟩, hfind, rfl⟩
    obtain ⟨hmem, rfl⟩ := Keyed.mem_of_find? hfind
    exact hmem
  · exact fun hmem => ⟨(path, node), Keyed.find?_eq_some.2 ⟨hmem, rfl⟩, rfl⟩

theorem childOf_eq_some {entry : Path × Node} : childOf dir entry = some (name, kind) ↔
    entry.1 = dir ++ [name] ∧ entry.2.kind = kind := by
  unfold childOf
  constructor
  · intro h
    split at h
    · rename_i hdir
      obtain ⟨last, hlast, heq⟩ := Option.map_eq_some_iff.1 h
      obtain ⟨rfl, rfl⟩ := Prod.mk.inj heq
      refine ⟨?_, rfl⟩
      rw [← hdir]
      exact (List.dropLast_append_getLast? _ hlast).symm
    · cases h
  · rintro ⟨hentry, rfl⟩
    rw [hentry, List.dropLast_concat, if_pos rfl, List.getLast?_concat]
    rfl

/-- What a listing holds. -/
theorem mem_readDir {entries : List (Name × Kind)} (h : fs.readDir dir = .entries entries) :
    (name, kind) ∈ entries ↔ ∃ node, fs.node? (dir ++ [name]) = some node ∧ node.kind = kind := by
  unfold readDir at h
  split at h
  · cases h
  · split at h
    · cases h
      rw [List.mem_filterMap]
      constructor
      · rintro ⟨⟨path, node⟩, hmem, hchild⟩
        obtain ⟨rfl, hkind⟩ := childOf_eq_some.1 hchild
        exact ⟨node, node?_eq_some.2 hmem, hkind⟩
      · rintro ⟨node, hnode, hkind⟩
        exact ⟨(dir ++ [name], node), node?_eq_some.1 hnode, childOf_eq_some.2 ⟨rfl, hkind⟩⟩
    · cases h

/-- What is somewhere below a directory is in a directory. -/
theorem exists_dir (hdir : dir ≠ []) {rest : Path} (hrest : rest ≠ []) (h : fs.node? (dir ++ rest) = some node) :
    ∃ parent, fs.node? dir = some parent ∧ parent.kind = .dir := by
  induction rest using List.reverseRecOn generalizing node with
  | nil => exact absurd rfl hrest
  | append_singleton rest name ih =>
    rw [← List.append_assoc, node?_eq_some] at h
    rcases fs.parents _ h with hshort | ⟨⟨path, parent⟩, hparent, hpath, hkind⟩
    · have hlong : 0 < dir.length := List.length_pos_of_ne_nil hdir
      simp only [List.length_append, List.length_singleton] at hshort
      omega
    obtain rfl : path = dir ++ rest := hpath.trans List.dropLast_concat
    replace hparent := node?_eq_some.2 hparent
    cases hrest' : rest with
    | nil =>
      rw [hrest', List.append_nil] at hparent
      exact ⟨parent, hparent, hkind⟩
    | cons first others => exact ih (hrest' ▸ List.cons_ne_nil _ _) hparent

end FileSystem

/-! ## The walk -/

/-- What one turn sees: the file system, and whether the call of the turn fails. -/
structure StoreSeen where
  fs : FileSystem
  fails : Bool

/-- The variables of `local_inventory`: the stack, what is left of the directory that is being read, and the map.  A
path comes with its key. -/
structure Walk where
  stack : List (Path × ObjKey)
  entries : List (Path × ObjKey × Kind)
  inventory : List (ObjKey × ℕ)

/-- Where the walk starts. -/
def Walk.start (pre : Name) (inventory : List (ObjKey × ℕ)) : Walk := ⟨[([pre], pre.text)], [], inventory⟩

def Walk.done (walk : Walk) : Bool := walk.stack.isEmpty && walk.entries.isEmpty

/-- One turn: of the inner loop while there are entries, else of the outer one. -/
def localTurn (seen : StoreSeen) (walk : Walk) : Except Server.Abort Walk :=
  match walk.entries with
  | (path, key, kind) :: entries =>
    match kind with
    | .dir => .ok { walk with stack := (path, key) :: walk.stack, entries := entries }
    | .file =>
      -- `metadata` is a call of its own: the file may be gone
      match seen.fails, seen.fs.node? path with
      | false, some node => .ok { walk with entries := entries, inventory := insertKey walk.inventory key node.len }
      | _, _ => .error Server.AppError.somethingWentWrong
    | .other => .ok { walk with entries := entries }
  | [] =>
    match walk.stack with
    | [] => .ok walk
    | (dir, keyPrefix) :: stack =>
      if seen.fails then .error Server.AppError.somethingWentWrong
      else match seen.fs.readDir dir with
        | .notFound => .ok { walk with stack := stack }
        | .failed => .error Server.AppError.somethingWentWrong
        | .entries found =>
          .ok { walk with
            stack := stack
            entries := found.map fun entry => (dir ++ [entry.1], childKey keyPrefix entry.1, entry.2) }

/-- `local_inventory` -/
def localInventory : Loop StoreSeen Walk Server.Abort := ⟨Walk.done, localTurn⟩

/-! ## What is found has been there -/

/-- A path below the directory where the walk starts. -/
def Below (pre : Name) (path : Path) : Prop := ∃ rest, rest ≠ [] ∧ path = pre :: rest

/-- A file has been listed at the path, and what was there had this length when it was asked for. -/
def Witnessed (P : StoreSeen → Prop) (path : Path) (bytes : ℕ) : Prop :=
  (∃ seen node, P seen ∧ seen.fs.node? path = some node ∧ node.kind = .file) ∧
    ∃ seen node, P seen ∧ seen.fs.node? path = some node ∧ node.len = bytes

/-- The variables of a walk that has seen what `P` says. -/
structure Walk.Sound (pre : Name) (P : StoreSeen → Prop) (before : List (ObjKey × ℕ)) (walk : Walk) : Prop where
  stack : ∀ dir ∈ walk.stack, dir.2 = keyOf dir.1 ∧ ∃ rest, dir.1 = pre :: rest
  entries : ∀ entry ∈ walk.entries, entry.2.1 = keyOf entry.1 ∧ Below pre entry.1 ∧
    ∃ seen node, P seen ∧ seen.fs.node? entry.1 = some node ∧ node.kind = entry.2.2
  inventory : ∀ key, storedBytes walk.inventory key = storedBytes before key ∨
    ∃ path bytes, key = keyOf path ∧ Below pre path ∧ Witnessed P path bytes ∧
      storedBytes walk.inventory key = some bytes

section Turn

variable {pre : Name} {P : StoreSeen → Prop} {before : List (ObjKey × ℕ)} {seen : StoreSeen} {walk walk' : Walk}

theorem sound_start : (Walk.start pre before).Sound pre P before where
  stack dir hdir := by
    cases List.mem_singleton.1 hdir
    exact ⟨(List.intercalate_singleton).symm, [], rfl⟩
  entries _ hentry := absurd hentry List.not_mem_nil
  inventory _ := .inl rfl

/-- **What one turn does**, by what it is about. -/
theorem localTurn_cases (h : localTurn seen walk = .ok walk') :
    (∃ path key entries, walk.entries = (path, key, .dir) :: entries ∧
      walk' = { walk with stack := (path, key) :: walk.stack, entries := entries }) ∨
    (∃ path key entries node, walk.entries = (path, key, .file) :: entries ∧ seen.fs.node? path = some node ∧
      walk' = { walk with entries := entries, inventory := insertKey walk.inventory key node.len }) ∨
    (∃ path key entries, walk.entries = (path, key, .other) :: entries ∧ walk' = { walk with entries := entries }) ∨
    (∃ dir key stack, walk.entries = [] ∧ walk.stack = (dir, key) :: stack ∧ seen.fs.node? dir = none ∧
      walk' = { walk with stack := stack }) ∨
    (∃ dir key stack found, walk.entries = [] ∧ walk.stack = (dir, key) :: stack ∧
      seen.fs.readDir dir = .entries found ∧ walk' = { walk with
        stack := stack, entries := found.map fun entry => (dir ++ [entry.1], childKey key entry.1, entry.2) }) ∨
    (walk.done = true ∧ walk' = walk) := by
  obtain ⟨stack, entries, inventory⟩ := walk
  unfold localTurn at h
  rcases entries with _ | ⟨⟨path, key, kind⟩, entries⟩
  · rcases stack with _ | ⟨⟨dir, key⟩, stack⟩
    · cases h
      exact .inr (.inr (.inr (.inr (.inr ⟨rfl, rfl⟩))))
    · simp only at h
      split at h
      · cases h
      · split at h
        · rename_i hfound
          cases h
          refine .inr (.inr (.inr (.inl ⟨dir, key, stack, rfl, rfl, ?_, rfl⟩)))
          unfold FileSystem.readDir at hfound
          split at hfound
          · assumption
          · split at hfound <;> cases hfound
        · cases h
        · rename_i found hfound
          cases h
          exact .inr (.inr (.inr (.inr (.inl ⟨dir, key, stack, found, rfl, rfl, hfound, rfl⟩))))
  · cases kind with
    | dir =>
      cases h
      exact .inl ⟨path, key, entries, rfl, rfl⟩
    | file =>
      simp only at h
      split at h
      · rename_i node _ hnode
        cases h
        exact .inr (.inl ⟨path, key, entries, node, rfl, hnode, rfl⟩)
      · cases h
    | other =>
      cases h
      exact .inr (.inr (.inl ⟨path, key, entries, rfl, rfl⟩))

theorem sound_turn (hseen : P seen) (hwalk : walk.Sound pre P before) (h : localTurn seen walk = .ok walk') :
    walk'.Sound pre P before := by
  rcases localTurn_cases h with ⟨path, key, entries, heq, rfl⟩ | ⟨path, key, entries, node, heq, hnode, rfl⟩ |
    ⟨path, key, entries, heq, rfl⟩ | ⟨dir, key, stack, heq, hstack, -, rfl⟩ |
    ⟨dir, key, stack, found, heq, hstack, hfound, rfl⟩ | ⟨-, rfl⟩
  · obtain ⟨hkey, ⟨rest, -, hpath⟩, -⟩ := hwalk.entries _ (heq ▸ List.mem_cons_self)
    refine ⟨fun d hd => ?_, fun e he => hwalk.entries e (heq ▸ List.mem_cons_of_mem _ he), hwalk.inventory⟩
    rcases List.mem_cons.1 hd with rfl | hd
    · exact ⟨hkey, rest, hpath⟩
    · exact hwalk.stack d hd
  · obtain ⟨hkey, hbelow, seen', node', hseen', hnode', hkind⟩ := hwalk.entries _ (heq ▸ List.mem_cons_self)
    refine ⟨hwalk.stack, fun e he => hwalk.entries e (heq ▸ List.mem_cons_of_mem _ he), fun key' => ?_⟩
    by_cases hsame : key' = key
    · refine .inr ⟨path, node.len, hsame.trans hkey, hbelow, ⟨⟨seen', node', hseen', hnode', hkind⟩,
        seen, node, hseen, hnode, rfl⟩, ?_⟩
      rw [storedBytes_insertKey, if_pos hsame]
    · rw [storedBytes_insertKey, if_neg hsame]
      exact hwalk.inventory key'
  · exact ⟨hwalk.stack, fun e he => hwalk.entries e (heq ▸ List.mem_cons_of_mem _ he), hwalk.inventory⟩
  · exact ⟨fun d hd => hwalk.stack d (hstack ▸ List.mem_cons_of_mem _ hd), hwalk.entries, hwalk.inventory⟩
  · obtain ⟨hkey, rest, hdir⟩ := hwalk.stack _ (hstack ▸ List.mem_cons_self)
    refine ⟨fun d hd => hwalk.stack d (hstack ▸ List.mem_cons_of_mem _ hd), fun e he => ?_, hwalk.inventory⟩
    obtain ⟨⟨name, kind⟩, hname, rfl⟩ := List.mem_map.1 he
    obtain ⟨node, hnode, hkind⟩ := (FileSystem.mem_readDir hfound).1 hname
    obtain rfl : dir = pre :: rest := hdir
    obtain rfl : key = keyOf (pre :: rest) := hkey
    exact ⟨(keyOf_concat (List.cons_ne_nil _ _) name).symm, ⟨rest ++ [name], by simp, rfl⟩, seen, node, hseen, hnode,
      hkind⟩
  · exact hwalk

end Turn

/-! ## A file that stays is found -/

/-- The file is in the map, or on its way there. -/
inductive Coming (path : Path) (bytes : ℕ) (walk : Walk) : Prop
  | found : storedBytes walk.inventory (keyOf path) = some bytes → Coming path bytes walk
  | entry : (path, keyOf path, Kind.file) ∈ walk.entries → Coming path bytes walk
  | dirEntry {dir rest : Path} : (dir, keyOf dir, Kind.dir) ∈ walk.entries → dir ≠ [] → rest ≠ [] →
      path = dir ++ rest → Coming path bytes walk
  | dir {dir rest : Path} : (dir, keyOf dir) ∈ walk.stack → dir ≠ [] → rest ≠ [] → path = dir ++ rest →
      Coming path bytes walk

/-- The file is there, with this length. -/
def Stays (path : Path) (bytes : ℕ) (seen : StoreSeen) : Prop := seen.fs.node? path = some ⟨.file, bytes⟩

section Stays

variable {pre : Name} {P : StoreSeen → Prop} {before : List (ObjKey × ℕ)} {seen : StoreSeen} {walk walk' : Walk}
  {path : Path} {bytes : ℕ}

theorem Coming.start (hbelow : Below pre path) : Coming path bytes (.start pre before) := by
  obtain ⟨rest, hrest, rfl⟩ := hbelow
  have hstart : ([pre], keyOf [pre]) ∈ (Walk.start pre before).stack := by
    unfold keyOf
    rw [List.map_singleton, List.intercalate_singleton]
    exact List.mem_singleton_self _
  exact .dir hstart (List.cons_ne_nil _ _) hrest rfl

/-- Reading a directory above the file lists the file, or the next directory above it. -/
theorem Coming.listed {dir rest : Path} {found : List (Name × Kind)} (hstays : Stays path bytes seen) (hdir : dir ≠ [])
    (hrest : rest ≠ []) (hpath : path = dir ++ rest) (hfound : seen.fs.readDir dir = .entries found)
    {stack : List (Path × ObjKey)} {inventory : List (ObjKey × ℕ)} :
    Coming path bytes
      ⟨stack, found.map fun entry => (dir ++ [entry.1], childKey (keyOf dir) entry.1, entry.2), inventory⟩ := by
  obtain ⟨name, rest, rfl⟩ := List.exists_cons_of_ne_nil hrest
  have hpath' : path = (dir ++ [name]) ++ rest := by rw [hpath, List.append_assoc, List.singleton_append]
  have hnext : ∀ {kind : Kind} {node : Node}, seen.fs.node? (dir ++ [name]) = some node → node.kind = kind →
      (dir ++ [name], keyOf (dir ++ [name]), kind) ∈
        found.map fun entry => (dir ++ [entry.1], childKey (keyOf dir) entry.1, entry.2) := by
    intro kind node hnode hkind
    rw [keyOf_concat hdir]
    exact List.mem_map.2 ⟨(name, kind), (FileSystem.mem_readDir hfound).2 ⟨node, hnode, hkind⟩, rfl⟩
  unfold Stays at hstays
  rw [hpath'] at hstays
  cases rest with
  | nil =>
    rw [List.append_nil] at hpath' hstays
    rw [hpath']
    exact .entry (hnext hstays rfl)
  | cons second others =>
    have hsome : dir ++ [name] ≠ [] := by simp
    obtain ⟨node, hnode, hkind⟩ := FileSystem.exists_dir hsome (List.cons_ne_nil second others) hstays
    exact .dirEntry (hnext hnode hkind) hsome (List.cons_ne_nil _ _) hpath'

/-- **A file that stays stays in sight.** -/
theorem Coming.turn (hstays : Stays path bytes seen) (hpath : path ≠ []) (hwalk : walk.Sound pre P before)
    (h : localTurn seen walk = .ok walk') (hcoming : Coming path bytes walk) : Coming path bytes walk' := by
  rcases localTurn_cases h with ⟨path', key, entries, heq, rfl⟩ | ⟨path', key, entries, node, heq, hnode, rfl⟩ |
    ⟨path', key, entries, heq, rfl⟩ | ⟨dir', key, stack, heq, hstack, hnone, rfl⟩ |
    ⟨dir', key, stack, found, heq, hstack, hfound, rfl⟩ | ⟨-, rfl⟩
  · cases hcoming with
    | found hin => exact .found hin
    | entry hmem =>
      rcases List.mem_cons.1 (heq ▸ hmem) with hsame | hmem
      · cases hsame
      · exact .entry hmem
    | dirEntry hmem hdir hrest hsplit =>
      rcases List.mem_cons.1 (heq ▸ hmem) with hsame | hmem
      · cases hsame
        exact .dir List.mem_cons_self hdir hrest hsplit
      · exact .dirEntry hmem hdir hrest hsplit
    | dir hmem hdir hrest hsplit => exact .dir (List.mem_cons_of_mem _ hmem) hdir hrest hsplit
  · obtain ⟨hkey, ⟨rest', -, hpath'⟩, -⟩ := hwalk.entries _ (heq ▸ List.mem_cons_self)
    -- what has the key of the file is the file
    have hinsert : keyOf path = key → Coming path bytes
        { walk with entries := entries, inventory := insertKey walk.inventory key node.len } := by
      intro hsame
      have hsome : path' ≠ [] := by
        rintro rfl
        cases hpath'
      obtain rfl : path = path' := keyOf_injective hpath hsome (hsame.trans hkey)
      obtain rfl := Option.some.inj (hstays.symm.trans hnode)
      refine .found ?_
      rw [storedBytes_insertKey, if_pos hsame]
    cases hcoming with
    | found hin =>
      by_cases hsame : keyOf path = key
      · exact hinsert hsame
      · refine .found ?_
        rw [storedBytes_insertKey, if_neg hsame]
        exact hin
    | entry hmem =>
      rcases List.mem_cons.1 (heq ▸ hmem) with hsame | hmem
      · cases hsame
        exact hinsert rfl
      · exact .entry hmem
    | dirEntry hmem hdir hrest hsplit =>
      rcases List.mem_cons.1 (heq ▸ hmem) with hsame | hmem
      · cases hsame
      · exact .dirEntry hmem hdir hrest hsplit
    | dir hmem hdir hrest hsplit => exact .dir hmem hdir hrest hsplit
  · cases hcoming with
    | found hin => exact .found hin
    | entry hmem =>
      rcases List.mem_cons.1 (heq ▸ hmem) with hsame | hmem
      · cases hsame
      · exact .entry hmem
    | dirEntry hmem hdir hrest hsplit =>
      rcases List.mem_cons.1 (heq ▸ hmem) with hsame | hmem
      · cases hsame
      · exact .dirEntry hmem hdir hrest hsplit
    | dir hmem hdir hrest hsplit => exact .dir hmem hdir hrest hsplit
  · cases hcoming with
    | found hin => exact .found hin
    | entry hmem => exact absurd (heq ▸ hmem) List.not_mem_nil
    | dirEntry hmem => exact absurd (heq ▸ hmem) List.not_mem_nil
    | dir hmem hdir hrest hsplit =>
      rcases List.mem_cons.1 (hstack ▸ hmem) with hsame | hmem
      · cases hsame
        obtain ⟨parent, hparent, -⟩ := FileSystem.exists_dir hdir hrest (hsplit ▸ hstays)
        rw [hnone] at hparent
        cases hparent
      · exact .dir hmem hdir hrest hsplit
  · cases hcoming with
    | found hin => exact .found hin
    | entry hmem => exact absurd (heq ▸ hmem) List.not_mem_nil
    | dirEntry hmem => exact absurd (heq ▸ hmem) List.not_mem_nil
    | dir hmem hdir hrest hsplit =>
      rcases List.mem_cons.1 (hstack ▸ hmem) with hsame | hmem
      · cases hsame
        exact .listed hstays hdir hrest hsplit hfound
      · exact .dir hmem hdir hrest hsplit
  · exact hcoming

/-- At the end it has been found. -/
theorem Coming.stored (hcoming : Coming path bytes walk) (hdone : walk.done = true) :
    storedBytes walk.inventory (keyOf path) = some bytes := by
  obtain ⟨stack, entries, inventory⟩ := walk
  simp only [Walk.done, Bool.and_eq_true, List.isEmpty_iff] at hdone
  obtain ⟨rfl, rfl⟩ := hdone
  cases hcoming with
  | found hin => exact hin
  | entry hmem => exact absurd hmem List.not_mem_nil
  | dirEntry hmem => exact absurd hmem List.not_mem_nil
  | dir hmem => exact absurd hmem List.not_mem_nil

end Stays

/-! ## The whole walk -/

section Runs

variable {pre : Name} {before : List (ObjKey × ℕ)} {seens : List StoreSeen} {walk : Walk}

theorem walk_sound (h : localInventory.run seens (.start pre before) = .ok walk) :
    walk.Sound pre (· ∈ seens) before :=
  Loop.run_keeps (fun _ _ _ hseen hwalk _ hturn => sound_turn hseen hwalk hturn) (fun _ hseen => hseen) h sound_start

/-- **The walk finds what stays, and nothing that has not been there.**  Whatever changes in the store between two
calls: when the walk has come to its end, each file that was at its path with the same length whenever the walk looked
is in the map with this length; what else has come into the map has been listed as a file below the directory, and had
this length when it was asked for; all other keys are as they were. -/
theorem walk_complete (h : localInventory.run seens (.start pre before) = .ok walk) (hdone : walk.done = true) :
    (∀ path bytes, Below pre path → (∀ seen ∈ seens, Stays path bytes seen) →
      storedBytes walk.inventory (keyOf path) = some bytes) ∧
    ∀ key, storedBytes walk.inventory key = storedBytes before key ∨ ∃ path bytes, key = keyOf path ∧ Below pre path ∧
      Witnessed (· ∈ seens) path bytes ∧ storedBytes walk.inventory key = some bytes := by
  refine ⟨fun path bytes hbelow hstays => ?_, (walk_sound h).inventory⟩
  have hpath : path ≠ [] := by
    obtain ⟨rest, -, rfl⟩ := hbelow
    exact List.cons_ne_nil _ _
  have hboth : walk.Sound pre (· ∈ seens) before ∧ Coming path bytes walk :=
    Loop.run_keeps (P := fun seen => seen ∈ seens ∧ Stays path bytes seen)
      (I := fun walk => walk.Sound pre (· ∈ seens) before ∧ Coming path bytes walk)
      (fun _ _ _ hseen hwalk _ hturn => ⟨sound_turn hseen.1 hwalk.1 hturn, hwalk.2.turn hseen.2 hpath hwalk.1 hturn⟩)
      (fun seen hseen => ⟨hseen, hstays seen hseen⟩) h ⟨sound_start, .start hbelow⟩
  exact hboth.2.stored hdone

/-- `files` -/
def filesName : Name := ⟨['f', 'i', 'l', 'e', 's'], by decide, by decide⟩

/-- `a` -/
def aName : Name := ⟨['a'], by decide, by decide⟩

/-- `b` -/
def bName : Name := ⟨['b'], by decide, by decide⟩

/-- A store with `files/a/b`, of three bytes, and `files/b`. -/
def growingStore (len : ℕ) : FileSystem where
  nodes := ⟨[([filesName], ⟨.dir, 0⟩), ([filesName, aName], ⟨.dir, 0⟩), ([filesName, aName, bName], ⟨.file, 3⟩),
    ([filesName, bName], ⟨.file, len⟩)], by
      show List.Nodup [[filesName], [filesName, aName], [filesName, aName, bName], [filesName, bName]]
      decide⟩
  parents := by
    show ∀ entry ∈ [_, _, _, _], _
    simp

/-- `files/b` grows after it has been listed, and again when the walk has gone on. -/
def growing : List StoreSeen := [4, 4, 7, 9, 9, 9, 9].map fun len => ⟨growingStore len, false⟩

theorem walk_complete_growing :
    ∃ walk, localInventory.run growing (.start filesName []) = .ok walk ∧ walk.done = true ∧
      storedBytes walk.inventory (keyOf [filesName, aName, bName]) = some 3 ∧
      storedBytes walk.inventory (keyOf [filesName, bName]) = some 7 := by
  have hstays : ∀ seen ∈ growing, Stays [filesName, aName, bName] 3 seen := by
    unfold Stays
    decide
  refine ⟨_, rfl, rfl, ?_, rfl⟩
  exact (@walk_complete filesName [] growing _ rfl rfl).1 _ 3 ⟨_, List.cons_ne_nil _ _, rfl⟩ hstays

end Runs

/-! ## A store that does not change -/

section Static

variable {pre : Name} {before : List (ObjKey × ℕ)} {fs : FileSystem} {walk : Walk}

/-- Nothing changes, and no call fails. -/
def still (fs : FileSystem) : StoreSeen := ⟨fs, false⟩

/-- More than what a directory at a depth can have below it. -/
def weight (fs : FileSystem) (path : Path) : ℕ :=
  (2 * fs.nodes.rows.length + 2) ^ ((fs.nodes.rows.map fun e => e.1.length).sum + 1 - path.length)

/-- What is left to do. -/
def left (fs : FileSystem) (walk : Walk) : ℕ :=
  (walk.stack.map fun dir => weight fs dir.1).sum + (walk.entries.map fun entry => weight fs entry.1 + 1).sum

theorem weight_pos (path : Path) : 0 < weight fs path := Nat.pow_pos (by omega)

/-- What is in a directory weighs less than the directory. -/
theorem weight_child {dir : Path} {name : Name} {node : Node} (h : fs.node? (dir ++ [name]) = some node) :
    weight fs dir = (2 * fs.nodes.rows.length + 2) * weight fs (dir ++ [name]) := by
  have hdeep : (dir ++ [name]).length ≤ (fs.nodes.rows.map fun e => e.1.length).sum :=
    List.single_le_sum (by simp) _ (List.mem_map.2 ⟨_, FileSystem.node?_eq_some.1 h, rfl⟩)
  rw [List.length_append, List.length_singleton] at hdeep
  unfold weight
  rw [List.length_append, List.length_singleton, ← pow_succ']
  congr 1
  omega

theorem left_listed {dir : Path} {key : ObjKey} {found : List (Name × Kind)} (h : fs.readDir dir = .entries found) :
    ((found.map fun entry => (dir ++ [entry.1], childKey key entry.1, entry.2)).map
      fun entry => weight fs entry.1 + 1).sum < weight fs dir := by
  have hlength : found.length ≤ fs.nodes.rows.length := by
    unfold FileSystem.readDir at h
    split at h
    · cases h
    · split at h
      · cases h
        exact List.length_filterMap_le _ _
      · cases h
  rcases found with _ | ⟨⟨first, kind⟩, others⟩
  · exact weight_pos dir
  · obtain ⟨node, hnode, -⟩ := (FileSystem.mem_readDir h).1 List.mem_cons_self
    have hweight := weight_child hnode
    have hpos : 0 < weight fs (dir ++ [first]) := weight_pos _
    -- all of them are as deep as the first
    have hsame : ∀ name, weight fs (dir ++ [name]) = weight fs (dir ++ [first]) := fun name => by
      unfold weight
      simp
    have hsum := List.sum_le_card_nsmul ((((first, kind) :: others).map fun entry =>
      (dir ++ [entry.1], childKey key entry.1, entry.2)).map fun entry => weight fs entry.1 + 1)
      (weight fs (dir ++ [first]) + 1) (by
        intro n hn
        obtain ⟨_, hentry, rfl⟩ := List.mem_map.1 hn
        obtain ⟨entry, -, rfl⟩ := List.mem_map.1 hentry
        exact (congrArg (· + 1) (hsame entry.1)).le)
    rw [List.length_map, List.length_map, smul_eq_mul] at hsum
    calc _ ≤ ((first, kind) :: others).length * (weight fs (dir ++ [first]) + 1) := hsum
      _ ≤ fs.nodes.rows.length * (2 * weight fs (dir ++ [first])) := Nat.mul_le_mul hlength (by omega)
      _ < (2 * fs.nodes.rows.length + 2) * weight fs (dir ++ [first]) := by nlinarith
      _ = weight fs dir := hweight.symm

/-- What is on the stack is a directory, if it is there. -/
def Dirs (fs : FileSystem) (walk : Walk) : Prop :=
  ∀ dir ∈ walk.stack, ∀ node, fs.node? dir.1 = some node → node.kind = .dir

/-- Every turn comes closer to the end. -/
theorem turn_left (hwalk : walk.Sound pre (· = still fs) before) (hdirs : Dirs fs walk) (hdone : walk.done = false) :
    ∃ walk', localTurn (still fs) walk = .ok walk' ∧ Dirs fs walk' ∧ left fs walk' < left fs walk := by
  obtain ⟨stack, entries, inventory⟩ := walk
  rcases entries with _ | ⟨⟨path, key, kind⟩, entries⟩
  · rcases stack with _ | ⟨⟨dir, key⟩, stack⟩
    · cases hdone
    · have hrest : Dirs fs ⟨stack, [], inventory⟩ := fun d hd => hdirs d (List.mem_cons_of_mem _ hd)
      have hweight : 0 < weight fs dir := weight_pos dir
      cases hfound : fs.readDir dir with
      | notFound =>
        refine ⟨⟨stack, [], inventory⟩, by simp [localTurn, still, hfound], hrest, ?_⟩
        simp only [left, List.map_cons, List.sum_cons]
        omega
      | failed =>
        exfalso
        unfold FileSystem.readDir at hfound
        split at hfound
        · cases hfound
        · rename_i node hnode
          rw [if_pos (hdirs _ List.mem_cons_self node hnode)] at hfound
          cases hfound
      | entries found =>
        have hlisted := @left_listed fs dir key found hfound
        refine ⟨⟨stack, found.map fun entry => (dir ++ [entry.1], childKey key entry.1, entry.2), inventory⟩,
          by simp [localTurn, still, hfound], hrest, ?_⟩
        simp only [left, List.map_cons, List.sum_cons, List.map_nil, List.sum_nil]
        omega
  · obtain ⟨-, -, seen, node, rfl, hnode, hkind⟩ := hwalk.entries _ List.mem_cons_self
    cases kind with
    | dir =>
      refine ⟨⟨(path, key) :: stack, entries, inventory⟩, rfl, fun d hd node' hnode' => ?_, ?_⟩
      · rcases List.mem_cons.1 hd with rfl | hd
        · obtain rfl := Option.some.inj (hnode.symm.trans hnode')
          exact hkind
        · exact hdirs d hd node' hnode'
      · simp only [left, List.map_cons, List.sum_cons]
        omega
    | file =>
      have hnode' : fs.node? path = some node := hnode
      refine ⟨⟨stack, entries, insertKey inventory key node.len⟩, by simp [localTurn, still, hnode'], hdirs, ?_⟩
      simp only [left, List.map_cons, List.sum_cons]
      omega
    | other =>
      refine ⟨⟨stack, entries, inventory⟩, rfl, hdirs, ?_⟩
      simp only [left, List.map_cons, List.sum_cons]
      omega

/-- **The walk ends**, when nothing changes and no call fails. -/
theorem walk_ends (hpre : ∀ node, fs.node? [pre] = some node → node.kind = .dir) :
    ∃ n walk, localInventory.run (List.replicate n (still fs)) (.start pre before) = .ok walk ∧ walk.done = true := by
  have hstart : Dirs fs (.start pre before) := fun dir hdir node hnode => by
    cases List.mem_singleton.1 hdir
    exact hpre node hnode
  have hturn : ∀ walk, walk.Sound pre (· = still fs) before ∧ Dirs fs walk → localInventory.done walk = false →
      ∃ walk', localInventory.turn (still fs) walk = .ok walk' ∧
        (walk'.Sound pre (· = still fs) before ∧ Dirs fs walk') ∧ left fs walk' < left fs walk := by
    intro walk hwalk hdone
    obtain ⟨walk', hturn, hdirs, hlt⟩ := turn_left hwalk.1 hwalk.2 hdone
    exact ⟨walk', hturn, ⟨sound_turn rfl hwalk.1 hturn, hdirs⟩, hlt⟩
  obtain ⟨walk, hrun, hdone, -⟩ := Loop.run_ends (left fs) hturn le_rfl ⟨sound_start, hstart⟩
  exact ⟨_, walk, hrun, hdone⟩

/-- What it has found then: the files below the directory. -/
theorem walk_exact {n : ℕ} (hrun : localInventory.run (List.replicate n (still fs)) (.start pre before) = .ok walk)
    (hdone : walk.done = true) (key : ObjKey) :
    (∃ path bytes, key = keyOf path ∧ Below pre path ∧ fs.node? path = some ⟨.file, bytes⟩ ∧
      storedBytes walk.inventory key = some bytes) ∨
    (storedBytes walk.inventory key = storedBytes before key ∧
      ∀ path bytes, Below pre path → fs.node? path = some ⟨.file, bytes⟩ → keyOf path ≠ key) := by
  obtain ⟨hfound, hwitnessed⟩ := walk_complete hrun hdone
  by_cases hkey : ∃ path bytes, Below pre path ∧ fs.node? path = some ⟨.file, bytes⟩ ∧ keyOf path = key
  · obtain ⟨path, bytes, hbelow, hnode, rfl⟩ := hkey
    refine .inl ⟨path, bytes, rfl, hbelow, hnode, hfound path bytes hbelow fun seen hseen => ?_⟩
    rw [List.eq_of_mem_replicate hseen]
    exact hnode
  · refine .inr ⟨?_, fun path bytes hbelow hnode heq => hkey ⟨path, bytes, hbelow, hnode, heq⟩⟩
    rcases hwitnessed key with hsame | ⟨path, bytes, rfl, hbelow, ⟨⟨seen, node, hseen, hnode, hkind⟩, -⟩, -⟩
    · exact hsame
    · obtain rfl := List.eq_of_mem_replicate hseen
      obtain ⟨kind, len⟩ := node
      obtain rfl : kind = .file := hkind
      exact absurd ⟨path, len, hbelow, hnode, rfl⟩ hkey

end Static

end Gc
end Uwuubox
