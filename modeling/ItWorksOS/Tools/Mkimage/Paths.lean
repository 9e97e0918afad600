import Mathlib.Data.List.TakeWhile
import ItWorksOS.Foundation.PathRequests
import ItWorksOS.Tools.Mkimage.Clusters

/-!
# The paths of `disk.files`

Every line of `disk.files` requests the directories on its image path and then the path itself. As
long as no name is cut, the tree holds at each path what serving these requests creates there, and
siblings have different names. A name that is cut stays in the tree.
-/

namespace ItWorksOS

/-! ## Requests -/

/-- The requests of a line: a line that names a directory asks for the directories of its path, and
a line whose host file opens asks for a file in the last of them. -/
def lineRequests (host : HostFiles) (line : CString) : List (PathRequest CString) :=
  match line.span (· ≠ 58) with
  | (_, []) => []
  | (hostPath, _ :: imagePath) =>
      if imagePath.getLast? = some 47 then
        PathRequest.through [] (splitPath (imagePath.dropLast.take (fsPathMax - 1)))
      else
        match (splitPath (imagePath.take (fsPathMax - 1))).getLast? with
        | none => []
        | some filename =>
            PathRequest.through (if (host hostPath).isSome then [⟨[filename], true⟩] else [])
              (splitPath (imagePath.take (fsPathMax - 1))).dropLast

/-- The requests of all lines of `disk.files`. -/
def diskRequests (host : HostFiles) (content : List UInt8) : List (PathRequest CString) :=
  (diskFilesLines content.length content).flatMap (lineRequests host)

theorem lineRequests_ordered (host : HostFiles) (line : CString) :
    RequestsOrdered (lineRequests host line) := by
  have added (hostPath filename : CString) : RequestsOrdered
      (if (host hostPath).isSome then [⟨[filename], true⟩] else []) := by
    split_ifs
    · exact .single filename true
    · exact .nil
  rw [lineRequests]
  generalize line.span (· ≠ 58) = parted
  obtain ⟨hostPath, tail⟩ := parted
  cases tail with
  | nil => exact .nil
  | cons colon imagePath =>
      simp only
      by_cases slash : imagePath.getLast? = some 47
      · rw [if_pos slash]
        exact RequestsOrdered.nil.through _
      · rw [if_neg slash]
        cases (splitPath (imagePath.take (fsPathMax - 1))).getLast? with
        | none => exact .nil
        | some filename => exact (added hostPath filename).through _

theorem diskRequests_ordered (host : HostFiles) (content : List UInt8) :
    RequestsOrdered (diskRequests host content) :=
  .flatMap (lineRequests_ordered host)

theorem mem_of_mem_splitOn {separator byte : UInt8} {part path : List UInt8}
    (listed : part ∈ path.splitOn separator) (member : byte ∈ part) : byte ∈ path := by
  induction path generalizing part with
  | nil =>
      rw [List.splitOn_nil, List.mem_singleton] at listed
      rw [listed] at member
      cases member
  | cons first path induction =>
      rw [List.splitOn_cons_eq_if_modifyHead] at listed
      split_ifs at listed
      · rcases List.mem_cons.mp listed with rfl | later
        · cases member
        · exact List.mem_cons_of_mem _ (induction later member)
      · cases pieces : path.splitOn separator with
        | nil => exact absurd pieces (List.splitOn_ne_nil _ _)
        | cons head rest =>
            rw [pieces, List.modifyHead_cons] at listed
            rw [pieces] at induction
            rcases List.mem_cons.mp listed with rfl | later
            · rcases List.mem_cons.mp member with rfl | inner
              · exact List.mem_cons_self ..
              · exact List.mem_cons_of_mem _ (induction (List.mem_cons_self ..) inner)
            · exact List.mem_cons_of_mem _ (induction (List.mem_cons_of_mem _ later) member)

theorem mem_of_mem_splitPath {byte : UInt8} {part path : CString} (listed : part ∈ splitPath path)
    (member : byte ∈ part) : byte ∈ path := by
  rw [splitPath] at listed
  exact mem_of_mem_splitOn (List.mem_of_mem_filter (List.mem_of_mem_take listed)) member

/-- Requested components consist of bytes of the line. -/
theorem mem_of_mem_lineRequests {host : HostFiles} {line part : CString} {byte : UInt8}
    {request : PathRequest CString} (listed : request ∈ lineRequests host line)
    (inside : part ∈ request.path) (member : byte ∈ part) : byte ∈ line := by
  rw [lineRequests] at listed
  cases parted : line.span (· ≠ 58) with
  | mk hostPath tail =>
      rw [parted] at listed
      have line_eq : line = hostPath ++ tail := by
        rw [List.span_eq_takeWhile_dropWhile, Prod.mk.injEq] at parted
        rw [← parted.1, ← parted.2, List.takeWhile_append_dropWhile]
      cases tail with
      | nil => cases listed
      | cons colon imagePath =>
          suffices inner : byte ∈ imagePath by
            rw [line_eq]
            exact List.mem_append_right _ (List.mem_cons_of_mem _ inner)
          simp only at listed
          by_cases slash : imagePath.getLast? = some 47
          · rw [if_pos slash] at listed
            rcases PathRequest.mem_through listed inside with piece | ⟨_, none, _⟩
            · exact List.mem_of_mem_dropLast
                (List.mem_of_mem_take (mem_of_mem_splitPath piece member))
            · cases none
          · rw [if_neg slash] at listed
            cases last : (splitPath (imagePath.take (fsPathMax - 1))).getLast? with
            | none =>
                rw [last] at listed
                cases listed
            | some filename =>
                rw [last] at listed
                have own : part ∈ splitPath (imagePath.take (fsPathMax - 1)) := by
                  rcases PathRequest.mem_through listed inside with piece | ⟨other, added, piece⟩
                  · exact List.mem_of_mem_dropLast piece
                  · split_ifs at added
                    · rw [List.mem_singleton.mp added, List.mem_singleton] at piece
                      exact piece ▸ List.mem_of_getLast? last
                    · cases added
                exact List.mem_of_mem_take (mem_of_mem_splitPath own member)

theorem not_mem_of_mem_diskFilesLines {fuel : ℕ} {content : List UInt8} {line : CString}
    (listed : line ∈ diskFilesLines fuel content) : 0 ∉ line := by
  induction fuel generalizing content with
  | zero => cases listed
  | succ fuel induction =>
      cases content with
      | nil => cases listed
      | cons byte content =>
          rw [diskFilesLines.eq_3 _ _ (List.cons_ne_nil _ _)] at listed
          rcases List.mem_cons.mp listed with rfl | later
          · intro member
            simpa using List.mem_takeWhile_imp member
          · exact induction later

/-- Requested components have no NUL. -/
theorem not_mem_of_mem_diskRequests {host : HostFiles} {content : List UInt8} {part : CString}
    {request : PathRequest CString} (listed : request ∈ diskRequests host content)
    (inside : part ∈ request.path) : 0 ∉ part := by
  obtain ⟨line, line_mem, requested⟩ := List.mem_flatMap.mp listed
  exact fun member => not_mem_of_mem_diskFilesLines line_mem
    (mem_of_mem_lineRequests requested inside member)

/-! ## The tree as a view -/

/-- Whether a node is a file. -/
def FsNode.isFile : FsNode → Bool
  | .file _ _ _ _ => true
  | .directory _ _ _ => false

/-- What lies at each path below a directory with the given children. -/
def fsView (children : List FsNode) : PathView CString := fun path =>
  ((FsNode.directory [] 0 children).lookup path).map FsNode.isFile

theorem fsView_nil : fsView [] = PathView.root := by
  funext path
  cases path <;> rfl

theorem fsView_cons (children : List FsNode) (part : CString) :
    (fun path => fsView children (part :: path)) = fun path =>
      (fsNodeFindChild children part).bind fun child => (child.lookup path).map FsNode.isFile := by
  funext path
  rw [fsView, FsNode.lookup, Option.map_bind]
  rfl

theorem fsView_of_directory {children below : List FsNode} {part found : CString} {cluster : ℕ}
    (lookup : fsNodeFindChild children part = some (.directory found cluster below)) :
    (fun path => fsView children (part :: path)) = fsView below := by
  rw [fsView_cons, lookup]
  funext path
  cases path <;> rfl

theorem fsView_of_file {children : List FsNode} {part found hostPath : CString} {cluster size : ℕ}
    (lookup : fsNodeFindChild children part = some (.file found cluster hostPath size)) :
    (fun path => fsView children (part :: path)) = fun path =>
      if path = [] then some true else none := by
  rw [fsView_cons, lookup]
  funext path
  cases path <;> rfl

theorem fsView_of_missing {children : List FsNode} {part : CString}
    (lookup : fsNodeFindChild children part = none) :
    (fun path => fsView children (part :: path)) = fun _ => none := by
  rw [fsView_cons, lookup]
  rfl

theorem fsNodeFindChild_append {children : List FsNode} {node : FsNode}
    (missing : fsNodeFindChild children node.name = none) (name : CString) :
    fsNodeFindChild (children ++ [node]) name =
      if name = node.name then some node else fsNodeFindChild children name := by
  rw [fsNodeFindChild, List.find?_append, ← fsNodeFindChild, List.find?_singleton]
  by_cases same : name = node.name
  · rw [if_pos same, same, missing]
    simp
  · rw [if_neg same, if_neg (by simpa using Ne.symm same), Option.or_none]

theorem fsNodeFindChild_setChildren {children old : List FsNode} {part found : CString}
    {cluster : ℕ} (lookup : fsNodeFindChild children part = some (.directory found cluster old))
    (below : List FsNode) (name : CString) :
    fsNodeFindChild (fsNodeSetChildren part below children) name =
      if name = part then some (.directory found cluster below)
      else fsNodeFindChild children name := by
  have matching := (fsNodeFindChild_some lookup).2
  induction children with
  | nil => cases lookup
  | cons child rest induction =>
      rw [fsNodeFindChild, List.find?_cons] at lookup
      rw [fsNodeSetChildren]
      split at lookup
      · rename_i same
        obtain rfl := Option.some.inj lookup
        simp only [FsNode.name] at matching
        subst matching
        rw [if_pos same, fsNodeFindChild, fsNodeFindChild, List.find?_cons, List.find?_cons]
        split_ifs with equal
        · simp [FsNode.name, FsNode.firstCluster, equal]
        · have differ : (found == name) = false := by simpa using Ne.symm equal
          simp only [FsNode.name, differ]
      · rename_i differ
        rw [if_neg (by simp [differ]), fsNodeFindChild, fsNodeFindChild, List.find?_cons,
          List.find?_cons]
        split_ifs with equal
        · have inner := (induction lookup).trans (if_pos equal)
          rw [equal, differ]
          exact equal ▸ inner
        · cases child.name == name with
          | false => exact (induction lookup).trans (if_neg equal)
          | true => rfl

/-! ## Names -/

/-- All names below a node are shorter than the longest name that a node can hold. -/
inductive FsNode.Short : FsNode → Prop
  | file (name : CString) (cluster : ℕ) (hostPath : CString) (size : ℕ) :
      Short (.file name cluster hostPath size)
  | directory (name : CString) (cluster : ℕ) (children : List FsNode)
      (names : ∀ child ∈ children, child.name.length < fsNameMax - 1)
      (below : ∀ child ∈ children, child.Short) : Short (.directory name cluster children)

/-- In every directory below a node the names are distinct. -/
inductive FsNode.Unique : FsNode → Prop
  | file (name : CString) (cluster : ℕ) (hostPath : CString) (size : ℕ) :
      Unique (.file name cluster hostPath size)
  | directory (name : CString) (cluster : ℕ) (children : List FsNode)
      (names : (children.map FsNode.name).Nodup) (below : ∀ child ∈ children, child.Unique) :
      Unique (.directory name cluster children)

/-- All names below a directory are short. -/
def ShortBelow (children : List FsNode) : Prop :=
  ∀ child ∈ children, child.name.length < fsNameMax - 1 ∧ child.Short

/-- The names in every directory are distinct. -/
def UniqueBelow (children : List FsNode) : Prop :=
  (children.map FsNode.name).Nodup ∧ ∀ child ∈ children, child.Unique

theorem short_directory_iff {name : CString} {cluster : ℕ} {children : List FsNode} :
    (FsNode.directory name cluster children).Short ↔ ShortBelow children := by
  constructor
  · intro short
    cases short with
    | directory _ _ _ names below =>
        exact fun child member => ⟨names child member, below child member⟩
  · intro both
    exact .directory _ _ _ (fun child member => (both child member).1)
      fun child member => (both child member).2

theorem unique_directory_iff {name : CString} {cluster : ℕ} {children : List FsNode} :
    (FsNode.directory name cluster children).Unique ↔ UniqueBelow children := by
  constructor
  · intro unique
    cases unique with
    | directory _ _ _ names below => exact ⟨names, below⟩
  · rintro ⟨names, below⟩
    exact .directory _ _ _ names below

theorem shortBelow_append_iff {children : List FsNode} {node : FsNode} :
    ShortBelow (children ++ [node]) ↔
      ShortBelow children ∧ node.name.length < fsNameMax - 1 ∧ node.Short := by
  rw [ShortBelow, List.forall_mem_append, List.forall_mem_singleton, ShortBelow]

theorem uniqueBelow_append {children : List FsNode} {node : FsNode} (unique : UniqueBelow children)
    (missing : fsNodeFindChild children node.name = none) (own : node.Unique) :
    UniqueBelow (children ++ [node]) := by
  refine ⟨?_, List.forall_mem_append.mpr ⟨unique.2, List.forall_mem_singleton.mpr own⟩⟩
  rw [List.map_append, List.map_singleton, List.nodup_append]
  refine ⟨unique.1, List.nodup_singleton _, ?_⟩
  rintro name member last last_mem rfl
  obtain rfl := List.mem_singleton.mp last_mem
  obtain ⟨child, child_mem, same⟩ := List.mem_map.mp member
  have differ := List.find?_eq_none.mp missing child child_mem
  simp [same] at differ

section

variable {children below old : List FsNode} {part found : CString} {cluster : ℕ}
  (lookup : fsNodeFindChild children part = some (.directory found cluster old))

include lookup

theorem shortBelow_setChildren_iff (weaker : ShortBelow below → ShortBelow old) :
    ShortBelow (fsNodeSetChildren part below children) ↔
      ShortBelow below ∧ ShortBelow children := by
  rw [ShortBelow, forall_mem_fsNodeSetChildren lookup, short_directory_iff, ← ShortBelow]
  · constructor
    · rintro ⟨⟨-, inner⟩, outer⟩
      exact ⟨inner, outer⟩
    · rintro ⟨inner, outer⟩
      exact ⟨⟨(outer _ (fsNodeFindChild_some lookup).1).1, inner⟩, outer⟩
  · rw [short_directory_iff, short_directory_iff]
    exact fun both => ⟨both.1, weaker both.2⟩

theorem uniqueBelow_setChildren (inner : UniqueBelow below) (outer : UniqueBelow children) :
    UniqueBelow (fsNodeSetChildren part below children) := by
  refine ⟨?_, (forall_mem_fsNodeSetChildren lookup fun _ => ?_).mpr
    ⟨unique_directory_iff.mpr inner, outer.2⟩⟩
  · rw [map_name_fsNodeSetChildren]
    exact outer.1
  · exact outer.2 _ (fsNodeFindChild_some lookup).1

end

/-! ## Following the requests -/

/-- All components of the paths of a view are short. -/
def ShortView (view : PathView CString) : Prop :=
  ∀ path, (view path).isSome → ∀ part ∈ path, part.length < fsNameMax - 1

/-- The children hold what the view says, under short and distinct names, unless both have a long
name. -/
inductive FollowsView (children : List FsNode) (view : PathView CString) : Prop
  | exact (short : ShortBelow children) (unique : UniqueBelow children)
      (same : fsView children = view)
  | long (tree : ¬ ShortBelow children) (view_long : ¬ ShortView view)

theorem FollowsView.refl {children : List FsNode} (short : ShortBelow children)
    (unique : UniqueBelow children) : FollowsView children (fsView children) :=
  .exact short unique rfl

theorem ShortView.below {view : PathView CString} {part : CString} (short : ShortView view) :
    ShortView fun path => view (part :: path) :=
  fun path found inner member => short (part :: path) found inner (List.mem_cons_of_mem _ member)

theorem fsView_aside {left right : List FsNode} {part : CString}
    (same : ∀ name, name ≠ part → fsNodeFindChild left name = fsNodeFindChild right name)
    {other : CString} (path : List CString) (differ : other ≠ part) :
    fsView left (other :: path) = fsView right (other :: path) := by
  have left_eq := congrFun (fsView_cons left other) path
  have right_eq := congrFun (fsView_cons right other) path
  rw [same other differ] at left_eq
  exact left_eq.trans right_eq.symm

section

variable {children : List FsNode} {requests : List (PathRequest CString)} {part : CString}

/-- What lies at a name is not requested again. -/
theorem serve_of_found {isFile : Bool} (found : (fsView children [part]).isSome) :
    (fsView children).serve ⟨[part], isFile⟩ = fsView children := by
  funext path
  rw [PathView.serve, if_neg fun served => ?_]
  rw [served.1] at served
  rw [served.2.1] at found
  cases found

/-- Requests below a directory of the children. -/
theorem FollowsView.directory {below new : List FsNode} {found : CString} {cluster : ℕ}
    (short : ShortBelow children) (unique : UniqueBelow children)
    (lookup : fsNodeFindChild children part = some (.directory found cluster below))
    (weaker : ShortBelow new → ShortBelow below)
    (nonempty : ∀ request ∈ requests, request.path ≠ [])
    (inner : FollowsView new ((fsView below).serveAll requests)) :
    FollowsView (fsNodeSetChildren part new children)
      ((fsView children).serveAll (requests.map (PathRequest.under part))) := by
  obtain ⟨view_below, view_aside⟩ :=
    @PathView.serveAll_under _ _ (fsView children) requests part nonempty
  rw [fsView_of_directory lookup] at view_below
  have under_nonempty : ∀ request ∈ requests.map (PathRequest.under part), request.path ≠ [] := by
    rw [List.forall_mem_map]
    exact fun _ _ => List.cons_ne_nil _ _
  cases inner with
  | exact new_short new_unique same =>
      refine .exact ((shortBelow_setChildren_iff lookup weaker).mpr ⟨new_short, short⟩)
        (uniqueBelow_setChildren lookup new_unique unique) (PathView.ext_cons part ?_ ?_ ?_)
      · rw [PathView.serveAll_root under_nonempty]
        rfl
      · have replaced := (fsNodeFindChild_setChildren lookup new part).trans (if_pos rfl)
        rw [view_below, ← same]
        exact fsView_of_directory replaced
      · intro other path differ
        rw [view_aside other path differ]
        refine fsView_aside (fun name differ => ?_) path differ
        rw [fsNodeFindChild_setChildren lookup, if_neg differ]
  | long tree view_long =>
      refine .long (fun kept => tree ?_) fun kept => view_long ?_
      · exact ((shortBelow_setChildren_iff lookup weaker).mp kept).1
      · exact view_below ▸ kept.below

theorem serve_of_missing (missing : fsNodeFindChild children part = none) (isFile : Bool) :
    (fun path => (fsView children).serve ⟨[part], isFile⟩ (part :: path)) =
        (fun path => if path = [] then some isFile else none) ∧
      ∀ other path, other ≠ part →
        (fsView children).serve ⟨[part], isFile⟩ (other :: path) =
          fsView children (other :: path) := by
  have nothing := fsView_of_missing missing
  refine ⟨funext fun path => ?_, fun other path differ => ?_⟩
  · cases path with
    | nil =>
        rw [PathView.serve, if_pos ⟨rfl, congrFun nothing [], rfl⟩]
        rfl
    | cons next path =>
        rw [PathView.serve, if_neg fun served => by simp at served, if_neg (List.cons_ne_nil _ _)]
        exact congrFun nothing (next :: path)
  · rw [PathView.serve, if_neg fun served => differ (List.cons.inj served.1).1]

theorem fsView_append {node : FsNode} (missing : fsNodeFindChild children node.name = none) :
    (fun path => fsView (children ++ [node]) (node.name :: path)) =
        (fun path => (node.lookup path).map FsNode.isFile) ∧
      ∀ other path, other ≠ node.name →
        fsView (children ++ [node]) (other :: path) = fsView children (other :: path) := by
  have found (name : CString) := fsNodeFindChild_append missing name
  constructor
  · rw [fsView_cons, found, if_pos rfl]
    rfl
  · intro other path differ
    refine fsView_aside (fun name differ => ?_) path differ
    rw [found, if_neg differ]

/-- A name that is cut when a node is created is long in the tree and in the view. -/
theorem FollowsView.cut {node : FsNode} {view : PathView CString}
    (named : node.name = part.take (fsNameMax - 1)) (long : ¬ part.length < fsNameMax - 1)
    (found : (view [part]).isSome) : FollowsView (children ++ [node]) view := by
  refine .long (fun short => ?_) fun short => long (short [part] found part (by simp))
  have own := (shortBelow_append_iff.mp short).2.1
  rw [named, List.length_take] at own
  omega

/-- Requests below a directory that is new. -/
theorem FollowsView.create {new : List FsNode} (short : ShortBelow children)
    (unique : UniqueBelow children) (missing : fsNodeFindChild children part = none)
    (nonempty : ∀ request ∈ requests, request.path ≠ [])
    (inner : FollowsView new (PathView.root.serveAll requests)) :
    FollowsView (children ++ [fsNodeCreateDirectory part new])
      (((fsView children).serve ⟨[part], false⟩).serveAll
        (requests.map (PathRequest.under part))) := by
  obtain ⟨served, served_aside⟩ := serve_of_missing missing false
  obtain ⟨view_below, view_aside⟩ := @PathView.serveAll_under _ _
    ((fsView children).serve ⟨[part], false⟩) requests part nonempty
  rw [served] at view_below
  change _ = PathView.root.serveAll requests at view_below
  have created : ((fsView children).serve ⟨[part], false⟩).serveAll
      (requests.map (PathRequest.under part)) [part] = some false :=
    PathView.serveAll_of_some (congrFun served [])
  by_cases long : part.length < fsNameMax - 1
  swap
  · exact .cut rfl long (by rw [created]; rfl)
  have named : (fsNodeCreateDirectory part new).name = part := List.take_of_length_le long.le
  have under_nonempty : ∀ request ∈ requests.map (PathRequest.under part), request.path ≠ [] := by
    rw [List.forall_mem_map]
    exact fun _ _ => List.cons_ne_nil _ _
  cases inner with
  | exact new_short new_unique same =>
      obtain ⟨below, aside⟩ := fsView_append (named.symm ▸ missing)
      rw [named] at below aside
      refine .exact (shortBelow_append_iff.mpr ⟨short, named.symm ▸ long, ?_⟩)
        (uniqueBelow_append unique (named.symm ▸ missing) ?_) (PathView.ext_cons part ?_ ?_ ?_)
      · exact short_directory_iff.mpr new_short
      · exact unique_directory_iff.mpr new_unique
      · rw [PathView.serveAll_root under_nonempty]
        rfl
      · rw [below, view_below, ← same]
        funext path
        cases path <;> rfl
      · intro other path differ
        rw [aside other path differ, view_aside other path differ, served_aside other path differ]
  | long tree view_long =>
      refine .long (fun kept => tree ?_) fun kept => view_long ?_
      · exact short_directory_iff.mp (shortBelow_append_iff.mp kept).2.2
      · exact view_below ▸ kept.below

/-- A file of the children hides everything below its name. -/
theorem serveAll_of_file {found hostPath : CString} {cluster size : ℕ}
    (lookup : fsNodeFindChild children part = some (.file found cluster hostPath size))
    (nonempty : ∀ request ∈ requests, request.path ≠ []) :
    (fsView children).serveAll (requests.map (PathRequest.under part)) = fsView children := by
  obtain ⟨below, aside⟩ := @PathView.serveAll_under _ _ (fsView children) requests part nonempty
  have under_nonempty : ∀ request ∈ requests.map (PathRequest.under part), request.path ≠ [] := by
    rw [List.forall_mem_map]
    exact fun _ _ => List.cons_ne_nil _ _
  refine PathView.ext_cons part (PathView.serveAll_root under_nonempty) ?_ aside
  rw [below, PathView.serveAll_of_closed nonempty fun path => ?_]
  rw [congrFun (fsView_of_file lookup) path]
  split_ifs <;> simp

end

theorem treeDescend_short {act : List FsNode → Bool × List FsNode}
    (acts : ∀ children, ShortBelow (act children).2 → ShortBelow children) (parts : List CString)
    {children : List FsNode} (short : ShortBelow (treeDescend act parts children).2) :
    ShortBelow children := by
  induction parts generalizing children with
  | nil => exact acts children short
  | cons part parts induction =>
      rw [treeDescend] at short
      cases lookup : fsNodeFindChild children part with
      | none =>
          rw [lookup] at short
          exact (shortBelow_append_iff.mp short).1
      | some child =>
          rw [lookup] at short
          cases child with
          | file => exact short
          | directory found cluster below =>
              exact ((shortBelow_setChildren_iff lookup induction).mp short).2

theorem shortBelow_nil : ShortBelow [] := List.forall_mem_nil _

theorem uniqueBelow_nil : UniqueBelow [] := ⟨List.nodup_nil, List.forall_mem_nil _⟩

theorem UniqueBelow.directory {children below : List FsNode} {part found : CString} {cluster : ℕ}
    (unique : UniqueBelow children)
    (lookup : fsNodeFindChild children part = some (.directory found cluster below)) :
    UniqueBelow below :=
  unique_directory_iff.mp (unique.2 _ (fsNodeFindChild_some lookup).1)

theorem ShortBelow.directory {children below : List FsNode} {part found : CString} {cluster : ℕ}
    (short : ShortBelow children)
    (lookup : fsNodeFindChild children part = some (.directory found cluster below)) :
    ShortBelow below :=
  short_directory_iff.mp (short _ (fsNodeFindChild_some lookup).1).2

/-- A descent serves the requests for the directories on its path and then those of its action. -/
theorem treeDescend_follows {act : List FsNode → Bool × List FsNode}
    {requests : List (PathRequest CString)} (nonempty : ∀ request ∈ requests, request.path ≠ [])
    (keeps : ∀ children, ShortBelow (act children).2 → ShortBelow children)
    (acts : ∀ children, ShortBelow children → UniqueBelow children →
      FollowsView (act children).2 ((fsView children).serveAll requests))
    (parts : List CString) {children : List FsNode} (short : ShortBelow children)
    (unique : UniqueBelow children) :
    FollowsView (treeDescend act parts children).2
      ((fsView children).serveAll (PathRequest.through requests parts)) := by
  induction parts generalizing children with
  | nil => exact acts children short unique
  | cons part parts induction =>
      have inner_nonempty := PathRequest.through_nonempty nonempty parts
      rw [treeDescend, PathRequest.through, PathView.serveAll_cons]
      cases lookup : fsNodeFindChild children part with
      | none =>
          have inner := induction shortBelow_nil uniqueBelow_nil
          rw [fsView_nil] at inner
          exact .create short unique lookup inner_nonempty inner
      | some child =>
          have found : (fsView children [part]).isSome := by
            rw [congrFun (fsView_cons children part) [], lookup]
            rfl
          rw [serve_of_found found]
          cases child with
          | file name cluster hostPath size =>
              rw [serveAll_of_file lookup inner_nonempty]
              exact .refl short unique
          | directory name cluster below =>
              exact .directory short unique lookup (treeDescend_short keeps parts)
                inner_nonempty (induction (short.directory lookup) (unique.directory lookup))

theorem treeAddFile_short {host : HostFiles} {filename hostPath : CString} {children : List FsNode}
    (short : ShortBelow (treeAddFile host filename hostPath children).2) : ShortBelow children := by
  rw [treeAddFile] at short
  split at short
  · exact short
  · split at short
    · exact short
    · exact (shortBelow_append_iff.mp short).1

theorem treeAddFile_follows (host : HostFiles) (filename hostPath : CString)
    {children : List FsNode} (short : ShortBelow children) (unique : UniqueBelow children) :
    FollowsView (treeAddFile host filename hostPath children).2 ((fsView children).serveAll
      (if (host hostPath).isSome then [⟨[filename], true⟩] else [])) := by
  rw [treeAddFile]
  cases lookup : fsNodeFindChild children filename with
  | some child =>
      have found : (fsView children [filename]).isSome := by
        rw [congrFun (fsView_cons children filename) [], lookup]
        rfl
      split_ifs
      · rw [PathView.serveAll_cons, serve_of_found found]
        exact .refl short unique
      · exact .refl short unique
  | none =>
      cases opened : host hostPath with
      | none =>
          simp only [fsNodeCreateFile, opened, Option.map_none, Option.isSome_none]
          exact .refl short unique
      | some bytes =>
          obtain ⟨served, served_aside⟩ := serve_of_missing lookup true
          simp only [fsNodeCreateFile, opened, Option.map_some, Option.isSome_some, if_true,
            PathView.serveAll_cons, PathView.serveAll_nil]
          by_cases long : filename.length < fsNameMax - 1
          swap
          · refine .cut rfl long ?_
            rw [congrFun served []]
            rfl
          have named : filename.take (fsNameMax - 1) = filename := List.take_of_length_le long.le
          rw [named]
          obtain ⟨below, aside⟩ := @fsView_append children (.file filename 0
            (hostPath.take (fsPathMax - 1)) (bytes.length % 2 ^ 32)) lookup
          refine .exact (shortBelow_append_iff.mpr ⟨short, long, .file ..⟩)
            (uniqueBelow_append unique lookup (.file ..)) (PathView.ext_cons filename rfl ?_ ?_)
          · rw [served]
            refine below.trans (funext fun path => ?_)
            cases path <;> rfl
          · intro other path differ
            rw [served_aside other path differ]
            exact aside other path differ

/-- A line serves its requests. -/
theorem parseDiskFilesLine_follows (host : HostFiles) (line : CString) {children : List FsNode}
    (short : ShortBelow children) (unique : UniqueBelow children) :
    FollowsView (parseDiskFilesLine host children line)
      ((fsView children).serveAll (lineRequests host line)) := by
  rw [parseDiskFilesLine, lineRequests]
  generalize line.span (· ≠ 58) = parted
  obtain ⟨hostPath, tail⟩ := parted
  cases tail with
  | nil => exact .refl short unique
  | cons colon imagePath =>
      simp only
      by_cases slash : imagePath.getLast? = some 47
      · rw [if_pos slash, if_pos slash, treeInsertDirectory]
        split_ifs with empty
        · rw [empty]
          exact .refl short unique
        · exact treeDescend_follows (List.forall_mem_nil _) (fun _ kept => kept)
            (fun _ short unique => .refl short unique) _ short unique
      · rw [if_neg slash, if_neg slash, treeInsertNode]
        cases (splitPath (imagePath.take (fsPathMax - 1))).getLast? with
        | none => exact .refl short unique
        | some filename =>
            refine treeDescend_follows ?_ (fun _ => treeAddFile_short)
              (fun _ => treeAddFile_follows host filename hostPath) _ short unique
            split_ifs <;> simp

theorem parseDiskFilesLine_short {host : HostFiles} {line : CString} {children : List FsNode}
    (short : ShortBelow (parseDiskFilesLine host children line)) : ShortBelow children := by
  rw [parseDiskFilesLine] at short
  split at short
  · exact short
  · split_ifs at short
    · rw [treeInsertDirectory] at short
      split_ifs at short
      · exact short
      · exact treeDescend_short (fun _ kept => kept) _ short
    · rw [treeInsertNode] at short
      split at short
      · exact short
      · exact treeDescend_short (fun _ => treeAddFile_short) _ short

/-- The tree of `disk.files` holds what its requests create, under short and distinct names, unless
both have a long name. -/
theorem parseDiskFiles_follows (host : HostFiles) (content : List UInt8) :
    FollowsView (parseDiskFiles host content).children
      (PathView.root.serveAll (diskRequests host content)) := by
  rw [parseDiskFiles, parseDiskFilesLines, fsNodeCreateDirectory, diskRequests]
  simp only [FsNode.children]
  generalize diskFilesLines content.length content = lines
  induction lines using List.reverseRecOn with
  | nil => exact .exact shortBelow_nil uniqueBelow_nil fsView_nil
  | append_singleton lines last induction =>
      rw [List.foldl_append, List.foldl_cons, List.foldl_nil, List.flatMap_append,
        List.flatMap_cons, List.flatMap_nil, List.append_nil, PathView.serveAll_append]
      cases induction with
      | exact short unique same =>
          rw [← same]
          exact parseDiskFilesLine_follows host last short unique
      | long tree view_long =>
          refine .long (fun short => tree (parseDiskFilesLine_short short)) fun kept =>
            view_long fun path found => ?_
          obtain ⟨isFile, lies⟩ := Option.isSome_iff_exists.mp found
          exact kept path (by rw [PathView.serveAll_of_some lies]; rfl)

/-! ## Nodes and paths -/

theorem FsNode.lookup_append (left right : List CString) (node : FsNode) :
    node.lookup (left ++ right) = (node.lookup left).bind (FsNode.lookup right) := by
  induction left generalizing node with
  | nil => rfl
  | cons part left induction =>
      rw [List.cons_append, FsNode.lookup, FsNode.lookup, Option.bind_assoc]
      congr 1
      funext child
      exact induction child

theorem FsNode.lookup_single (part : CString) (node : FsNode) :
    node.lookup [part] = fsNodeFindChild node.children part := by
  rw [FsNode.lookup]
  cases fsNodeFindChild node.children part <;> rfl

theorem fsNodeFindChild_of_mem {children : List FsNode} (names : (children.map FsNode.name).Nodup)
    {child : FsNode} (member : child ∈ children) :
    fsNodeFindChild children child.name = some child := by
  obtain ⟨found, lookup⟩ : ∃ found, fsNodeFindChild children child.name = some found := by
    rw [← Option.isSome_iff_exists, fsNodeFindChild, List.find?_isSome]
    exact ⟨child, member, by simp⟩
  obtain ⟨found_mem, same⟩ := fsNodeFindChild_some lookup
  rw [lookup, List.inj_on_of_nodup_map names found_mem member same]

theorem FsNode.Unique.lookup {node found : FsNode} (unique : node.Unique) {path : List CString}
    (lookup : node.lookup path = some found) : found.Unique := by
  induction path generalizing node with
  | nil =>
      cases lookup
      exact unique
  | cons part path induction =>
      obtain ⟨child, child_found, rest⟩ := Option.bind_eq_some_iff.mp lookup
      refine induction ?_ rest
      cases unique with
      | file => cases (fsNodeFindChild_some child_found).1
      | directory _ _ _ _ below => exact below child (fsNodeFindChild_some child_found).1

/-- In a tree with distinct names every node is found at its path. -/
theorem FsNode.Unique.forall_items_iff {root : FsNode} (unique : root.Unique)
    {Q : Bool → FsNode → Prop} (parent : Option ℕ) :
    (∀ item ∈ root.items parent, Q item.1.isSome item.2) ↔
      ∀ path node, root.lookup path = some node →
        Q (parent.isSome || decide (path ≠ [])) node := by
  induction unique generalizing parent with
  | file name cluster hostPath size =>
      rw [FsNode.items, List.forall_mem_singleton]
      constructor
      · intro own path node found
        cases path with
        | nil =>
            cases found
            simpa using own
        | cons part path => simp [FsNode.lookup, FsNode.children, fsNodeFindChild] at found
      · intro all
        simpa using all [] _ rfl
  | directory name cluster children names below induction =>
      have inner : (∀ item ∈ FsNode.itemsBelow cluster children, Q item.1.isSome item.2) ↔
          ∀ child ∈ children, ∀ path node, child.lookup path = some node → Q true node := by
        constructor
        · intro all child member path node found
          exact (induction child member (some cluster)).mp (fun item inside =>
            all item (FsNode.mem_itemsBelow_iff.mpr ⟨child, member, inside⟩)) path node found
        · intro all item listed
          obtain ⟨child, member, inside⟩ := FsNode.mem_itemsBelow_iff.mp listed
          exact (induction child member (some cluster)).mpr (all child member) item inside
      rw [FsNode.items, List.forall_mem_cons, inner]
      constructor
      · rintro ⟨own, rest⟩ path node found
        cases path with
        | nil =>
            cases found
            simpa using own
        | cons part path =>
            obtain ⟨child, lookup, found⟩ := Option.bind_eq_some_iff.mp found
            simpa using rest child (fsNodeFindChild_some lookup).1 path node found
      · intro all
        refine ⟨by simpa using all [] _ rfl, fun child member path node found => ?_⟩
        have at_path := all (child.name :: path) node (by
          rw [FsNode.lookup, FsNode.children, fsNodeFindChild_of_mem names member]
          exact found)
        simpa using at_path

end ItWorksOS
