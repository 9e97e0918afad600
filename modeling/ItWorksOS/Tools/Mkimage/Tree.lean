import Mathlib.Tactic

/-!
# The file tree of `tools/mkimage`

`tree.c` and `parser.c`: the lines of `disk.files` are inserted one after the other into a tree of
directories and files. Strings are lists of bytes without the terminating NUL.
-/

namespace ItWorksOS

/-- A C string, without its terminating NUL. -/
abbrev CString := List UInt8

/-- `FS_NAME_MAX`. -/
def fsNameMax : ℕ := 64

/-- `FS_PATH_MAX`. -/
def fsPathMax : ℕ := 256

/-- `MAX_PATH_COMPONENTS`. -/
def maxPathComponents : ℕ := 32

/-- `fs_node_t`; the parent pointer is the position in the tree. -/
inductive FsNode where
  | file (name : CString) (firstCluster : ℕ) (hostPath : CString) (size : ℕ)
  | directory (name : CString) (firstCluster : ℕ) (children : List FsNode)

namespace FsNode

/-- The `name` field. -/
def name : FsNode → CString
  | file name _ _ _ => name
  | directory name _ _ => name

/-- The `first_cluster` field. -/
def firstCluster : FsNode → ℕ
  | file _ cluster _ _ => cluster
  | directory _ cluster _ => cluster

/-- The children of a directory. -/
def children : FsNode → List FsNode
  | file _ _ _ _ => []
  | directory _ _ children => children

end FsNode

/-- What `fopen` finds on the host: the contents of a file that opens. -/
abbrev HostFiles := CString → Option (List UInt8)

/-- `fs_node_create_directory`, with the children that are then added. -/
def fsNodeCreateDirectory (name : CString) (children : List FsNode) : FsNode :=
  .directory (name.take (fsNameMax - 1)) 0 children

/-- `fs_node_create_file`: the size is what `ftell` reports, stored in 32 bits. -/
def fsNodeCreateFile (host : HostFiles) (filename hostPath : CString) : Option FsNode :=
  (host hostPath).map fun bytes =>
    .file (filename.take (fsNameMax - 1)) 0 (hostPath.take (fsPathMax - 1)) (bytes.length % 2 ^ 32)

/-- `fs_node_find_child`. -/
def fsNodeFindChild (children : List FsNode) (name : CString) : Option FsNode :=
  children.find? fun child => child.name == name

/-- Replace the children of the first child with a name: the effect, on the parent, of inserting
below the child that `fs_node_find_child` returned. -/
def fsNodeSetChildren (name : CString) (below : List FsNode) : List FsNode → List FsNode
  | [] => []
  | child :: rest =>
      if child.name == name then .directory child.name child.firstCluster below :: rest
      else child :: fsNodeSetChildren name below rest

/-- `split_path`: the non-empty components, at most `MAX_PATH_COMPONENTS` of them. -/
def splitPath (path : CString) : List CString :=
  ((path.splitOn 47).filter (· ≠ [])).take maxPathComponents

/-- The loop that `tree_insert_node` and `tree_insert_directory` share: follow the components,
creating missing directories, and act on the directory reached. The flag is false for `NULL`. -/
def treeDescend (act : List FsNode → Bool × List FsNode) :
    List CString → List FsNode → Bool × List FsNode
  | [], children => act children
  | part :: parts, children =>
      match fsNodeFindChild children part with
      | some (.file _ _ _ _) => (false, children)
      | some (.directory _ _ below) =>
          let result := treeDescend act parts below
          (result.1, fsNodeSetChildren part result.2 children)
      | none =>
          let result := treeDescend act parts []
          (result.1, children ++ [fsNodeCreateDirectory part result.2])

/-- The end of `tree_insert_node`: create the file in the directory reached. -/
def treeAddFile (host : HostFiles) (filename hostPath : CString) (children : List FsNode) :
    Bool × List FsNode :=
  match fsNodeFindChild children filename with
  | some _ => (false, children)
  | none =>
      match fsNodeCreateFile host filename hostPath with
      | none => (false, children)
      | some file => (true, children ++ [file])

/-- `tree_insert_node`, on the children of the root. -/
def treeInsertNode (host : HostFiles) (children : List FsNode) (path hostPath : CString) :
    Bool × List FsNode :=
  match (splitPath (path.take (fsPathMax - 1))).getLast? with
  | none => (false, children)
  | some filename =>
      treeDescend (treeAddFile host filename hostPath)
        (splitPath (path.take (fsPathMax - 1))).dropLast children

/-- `tree_insert_directory`, on the children of the root. -/
def treeInsertDirectory (children : List FsNode) (path : CString) : Bool × List FsNode :=
  if splitPath (path.take (fsPathMax - 1)) = [] then (false, children)
  else
    treeDescend (fun children => (true, children)) (splitPath (path.take (fsPathMax - 1))) children

/-- `fgets` with room for `count` bytes: the bytes up to and including a newline, and the rest. -/
def fgets : ℕ → List UInt8 → List UInt8 × List UInt8
  | 0, content => ([], content)
  | _ + 1, [] => ([], [])
  | count + 1, byte :: content =>
      if byte = 10 then ([byte], content)
      else (byte :: (fgets count content).1, (fgets count content).2)

/-- The strings that the loop of `parse_disk_files` reads; every call consumes a byte, so the length
of the content bounds their number. -/
def diskFilesLines : ℕ → List UInt8 → List CString
  | 0, _ => []
  | _ + 1, [] => []
  | fuel + 1, content =>
      ((fgets (2 * fsPathMax + 2) content).1.takeWhile fun byte => byte ≠ 10 && byte ≠ 0) ::
        diskFilesLines fuel (fgets (2 * fsPathMax + 2) content).2

/-- The body of the loop of `parse_disk_files`. -/
def parseDiskFilesLine (host : HostFiles) (children : List FsNode) (line : CString) :
    List FsNode :=
  match line.span (· ≠ 58) with
  | (_, []) => children
  | (hostPath, _ :: imagePath) =>
      if imagePath.getLast? = some 47 then
        (treeInsertDirectory children imagePath.dropLast).2
      else
        (treeInsertNode host children imagePath hostPath).2

/-- `parse_disk_files`, from the lines it reads. -/
def parseDiskFilesLines (host : HostFiles) (lines : List CString) : FsNode :=
  fsNodeCreateDirectory [] (lines.foldl (parseDiskFilesLine host) [])

/-- `parse_disk_files`. -/
def parseDiskFiles (host : HostFiles) (content : List UInt8) : FsNode :=
  parseDiskFilesLines host (diskFilesLines content.length content)

/-! ## Lookup -/

/-- The node at a path. -/
def FsNode.lookup : List CString → FsNode → Option FsNode
  | [], node => some node
  | name :: path, node => (fsNodeFindChild node.children name).bind (FsNode.lookup path)

theorem fsNodeFindChild_some {children : List FsNode} {name : CString} {child : FsNode}
    (found : fsNodeFindChild children name = some child) :
    child ∈ children ∧ child.name = name :=
  ⟨List.mem_of_find?_eq_some found, by simpa using List.find?_some found⟩

/-- Inserting below a directory keeps the names of its siblings and itself. -/
@[simp] theorem map_name_fsNodeSetChildren (name : CString) (below children : List FsNode) :
    (fsNodeSetChildren name below children).map FsNode.name = children.map FsNode.name := by
  induction children with
  | nil => rfl
  | cons child rest induction =>
      rw [fsNodeSetChildren]
      split
      · rfl
      · rw [List.map_cons, induction, List.map_cons]

/-- Only the found directory changes. -/
theorem forall_mem_fsNodeSetChildren {P : FsNode → Prop} {children below old : List FsNode}
    {name found : CString} {cluster : ℕ}
    (lookup : fsNodeFindChild children name = some (.directory found cluster old))
    (weaker : P (.directory found cluster below) → P (.directory found cluster old)) :
    (∀ child ∈ fsNodeSetChildren name below children, P child) ↔
      P (.directory found cluster below) ∧ ∀ child ∈ children, P child := by
  induction children with
  | nil => cases lookup
  | cons child rest induction =>
      rw [fsNodeFindChild, List.find?_cons] at lookup
      rw [fsNodeSetChildren]
      split at lookup
      · rename_i same
        obtain rfl := Option.some.inj lookup
        rw [if_pos same, List.forall_mem_cons, List.forall_mem_cons]
        simp only [FsNode.name, FsNode.firstCluster]
        tauto
      · rename_i differ
        rw [if_neg (by simp [differ]), List.forall_mem_cons, List.forall_mem_cons,
          induction lookup]
        tauto

end ItWorksOS
