import Tagsmaxxing.Lib.Keyed

/-! # The sandbox of an agent session (`sandbox.rs`, `taxonomy.rs`)

`Sandbox::setup` copies the workspace into a directory of its own. What must not get there is filtered in
the loops over the workspace's root; below the root a second function copies everything. -/

namespace Tagsmaxxing.Sandbox

/-! ## Files and directories -/

/-- A file name; `raw` are those that are not UTF-8. -/
inductive OsName
  | utf8 (name : String)
  | raw (bytes : List UInt8)
deriving DecidableEq

/-- `OsStr::to_str`. -/
def OsName.toStr : OsName → Option String
  | .utf8 name => some name
  | .raw _ => none

abbrev Path := List OsName

inductive Kind
  | file
  | dir
deriving DecidableEq

/-- The entries of a directory, as `read_dir` lists them. A link is given by what it leads to. -/
inductive Tree
  | nil
  | file (name : OsName) (rest : Tree)
  | dir (name : OsName) (entries rest : Tree)
  | linkToFile (name : OsName) (rest : Tree)
  | linkToDir (name : OsName) (entries rest : Tree)
  /-- a broken link, a socket or a device -/
  | other (name : OsName) (rest : Tree)

namespace Tree

/-- The entries for which `Path::is_file` holds, which follows links. -/
def files : Tree → List OsName
  | .nil => []
  | .file name rest => name :: rest.files
  | .dir _ _ rest => rest.files
  | .linkToFile name rest => name :: rest.files
  | .linkToDir _ _ rest => rest.files
  | .other _ rest => rest.files

/-- The entries for which `Path::is_dir` holds. -/
def dirs : Tree → List (OsName × Tree)
  | .nil => []
  | .file _ rest => rest.dirs
  | .dir name entries rest => (name, entries) :: rest.dirs
  | .linkToFile _ rest => rest.dirs
  | .linkToDir name entries rest => (name, entries) :: rest.dirs
  | .other _ rest => rest.dirs

end Tree

/-! ## What is copied -/

/-- What is on the disk below the sandbox's root. -/
abbrev Disk := Keyed Path Kind

/-- Create a file or directory, over one of the same kind if there is one; `none` is an error. -/
def create (kind : Kind) (disk : Disk) (path : Path) : Option Disk :=
  match disk.get? path with
  | none => some (disk.upsert path kind)
  | some found => if found = kind then some (disk.upsert path kind) else none

/-- `create_dir_all`, where the parents exist. -/
def createDir (disk : Disk) (path : Path) : Option Disk := create .dir disk path

/-- `std::fs::copy`. -/
def copyFile (disk : Disk) (path : Path) : Option Disk := create .file disk path

/-- The loop of `copy_dir_all`, which does not follow links. -/
def copyEntries : Tree → Path → Disk → Option Disk
  | .nil, _, disk => some disk
  | .file name rest, dst, disk => (copyFile disk (dst ++ [name])).bind (copyEntries rest dst)
  | .dir name entries rest, dst, disk =>
      ((createDir disk (dst ++ [name])).bind (copyEntries entries (dst ++ [name]))).bind (copyEntries rest dst)
  | .linkToFile _ rest, dst, disk => copyEntries rest dst disk
  | .linkToDir _ _ rest, dst, disk => copyEntries rest dst disk
  | .other _ rest, dst, disk => copyEntries rest dst disk

def copyDirAll (src : Tree) (dst : Path) (disk : Disk) : Option Disk :=
  (createDir disk dst).bind (copyEntries src dst)

/-- The rules that are used here; a pattern is given by the names it matches. -/
structure Taxonomy where
  neverCopy : List (String → Bool)
  sensitiveDepts : List String

def Taxonomy.isNeverCopy (t : Taxonomy) (name : String) : Bool := t.neverCopy.any fun re => re name

def Taxonomy.isSensitivePath (t : Taxonomy) (path : Path) : Bool :=
  path.any fun c =>
    match c.toStr with
    | some name => t.sensitiveDepts.any fun d => d == name
    | none => false

def excludedDirs : List String :=
  ["logs", ".git", "__pycache__", "node_modules", "sessions", "memory", ".backup", ".opencode"]

def commercialBlockedFiles : List String := ["company-profile.json", "AGENTS.md"]

end Tagsmaxxing.Sandbox

namespace Tagsmaxxing

/-- `Sandbox`, with the components of its `company_root`. -/
structure Sandbox where
  companyRoot : Sandbox.Path
  commercialModel : Bool
  taxonomy : Sandbox.Taxonomy

namespace Sandbox

variable (sandbox : Sandbox)

def shouldSkipFile (name : String) : Bool :=
  sandbox.taxonomy.isNeverCopy name || (sandbox.commercialModel && commercialBlockedFiles.contains name)

/-- Whether the second loop skips a directory. -/
def shouldSkipDir (name : OsName) : Bool :=
  excludedDirs.contains (name.toStr.getD "") ||
    (sandbox.commercialModel && sandbox.taxonomy.isSensitivePath (sandbox.companyRoot ++ [name]))

/-- `self.root.join(name)`, where a name that is not UTF-8 has become the empty one. -/
def join (name : OsName) : Path :=
  if name.toStr.getD "" = "" then [] else [.utf8 (name.toStr.getD "")]

/-- The loop over the files of the root. -/
def copyFiles : List OsName → Disk → Option Disk
  | [], disk => some disk
  | name :: names, disk =>
      if sandbox.shouldSkipFile (name.toStr.getD "") then copyFiles names disk
      else (copyFile disk (join name)).bind (copyFiles names)

/-- The loop over the directories of the root. -/
def copyDirs : List (OsName × Tree) → Disk → Option Disk
  | [], disk => some disk
  | (name, entries) :: dirs, disk =>
      if sandbox.shouldSkipDir name then copyDirs dirs disk
      else (copyDirAll entries (join name) disk).bind (copyDirs dirs)

/-- The workspace is copied into a new directory; `none` is an error. -/
def setup (workspace : Tree) : Option Disk :=
  ((createDir .empty []).bind (sandbox.copyFiles workspace.files)).bind (sandbox.copyDirs workspace.dirs)

/-! ## What ends up in the sandbox -/

/-- The file or directory at a path below a directory, links left out. -/
def Tree.Has : Tree → Path → Kind → Prop
  | .nil, _, _ => False
  | .file name rest, p, k => (p = [name] ∧ k = .file) ∨ rest.Has p k
  | .dir name entries rest, p, k =>
      (p = [name] ∧ k = .dir) ∨ (∃ q, p = name :: q ∧ entries.Has q k) ∨ rest.Has p k
  | .linkToFile _ rest, p, k => rest.Has p k
  | .linkToDir _ _ rest, p, k => rest.Has p k
  | .other _ rest, p, k => rest.Has p k

variable {tree : Tree} {p : Path} {k : Kind}

theorem Tree.Has.ne_nil (h : tree.Has p k) : p ≠ [] := by
  induction tree with
  | nil => exact h.elim
  | file name rest ih =>
    rcases h with ⟨rfl, -⟩ | h
    · exact List.cons_ne_nil _ _
    · exact ih h
  | dir name entries rest _ ih =>
    rcases h with ⟨rfl, -⟩ | ⟨q, rfl, -⟩ | h
    · exact List.cons_ne_nil _ _
    · exact List.cons_ne_nil _ _
    · exact ih h
  | linkToFile name rest ih | linkToDir name entries rest _ ih | other name rest ih => exact ih h

variable {disk disk' : Disk}

theorem get?_create {kind : Kind} {path : Path} (h : create kind disk path = some disk') (p : Path) (k : Kind) :
    disk'.get? p = some k ↔ (p = path ∧ k = kind) ∨ disk.get? p = some k := by
  have hcreated : disk' = disk.upsert path kind ∧ (disk.get? path = none ∨ disk.get? path = some kind) := by
    rw [create] at h
    split at h
    next hnone => exact ⟨(Option.some.inj h).symm, .inl hnone⟩
    next found hfound =>
      split at h <;> cases h
      next heq => exact ⟨rfl, .inr (heq ▸ hfound)⟩
  obtain ⟨rfl, hold⟩ := hcreated
  rw [Keyed.get?_upsert]
  by_cases hp : p = path
  · subst hp
    rcases hold with hold | hold <;> simp [hold, eq_comm]
  · simp [hp]

theorem get?_copyEntries {dst : Path} (h : copyEntries tree dst disk = some disk') (p : Path) (k : Kind) :
    disk'.get? p = some k ↔ (∃ q, tree.Has q k ∧ p = dst ++ q) ∨ disk.get? p = some k := by
  induction tree generalizing dst disk disk' with
  | nil =>
    cases h
    simp [Tree.Has]
  | file name rest ih =>
    obtain ⟨disk₁, hcopy, hrest⟩ := Option.bind_eq_some_iff.1 h
    rw [ih hrest, get?_create hcopy]
    constructor
    · rintro (⟨q, hq, rfl⟩ | ⟨rfl, rfl⟩ | hold)
      · exact .inl ⟨q, .inr hq, rfl⟩
      · exact .inl ⟨[name], .inl ⟨rfl, rfl⟩, rfl⟩
      · exact .inr hold
    · rintro (⟨q, ⟨rfl, rfl⟩ | hq, rfl⟩ | hold)
      · exact .inr (.inl ⟨rfl, rfl⟩)
      · exact .inl ⟨q, hq, rfl⟩
      · exact .inr (.inr hold)
  | dir name entries rest ihentries ihrest =>
    obtain ⟨disk₂, hdir, hrest⟩ := Option.bind_eq_some_iff.1 h
    obtain ⟨disk₁, hcreate, hentries⟩ := Option.bind_eq_some_iff.1 hdir
    rw [ihrest hrest, ihentries hentries, get?_create hcreate]
    constructor
    · rintro (⟨q, hq, rfl⟩ | ⟨q, hq, rfl⟩ | ⟨rfl, rfl⟩ | hold)
      · exact .inl ⟨q, .inr (.inr hq), rfl⟩
      · exact .inl ⟨name :: q, .inr (.inl ⟨q, rfl, hq⟩), by simp⟩
      · exact .inl ⟨[name], .inl ⟨rfl, rfl⟩, rfl⟩
      · exact .inr hold
    · rintro (⟨q, ⟨rfl, rfl⟩ | ⟨q', rfl, hq'⟩ | hq, rfl⟩ | hold)
      · exact .inr (.inr (.inl ⟨rfl, rfl⟩))
      · exact .inr (.inl ⟨q', hq', by simp⟩)
      · exact .inl ⟨q, hq, rfl⟩
      · exact .inr (.inr (.inr hold))
  | linkToFile name rest ih | linkToDir name entries rest _ ih | other name rest ih => exact ih h

theorem get?_copyFiles {names : List OsName} (h : sandbox.copyFiles names disk = some disk') (p : Path) (k : Kind) :
    disk'.get? p = some k ↔
      (∃ name ∈ names, sandbox.shouldSkipFile (name.toStr.getD "") = false ∧ p = join name ∧ k = .file) ∨
        disk.get? p = some k := by
  induction names generalizing disk with
  | nil =>
    cases h
    simp
  | cons name names ih =>
    rw [copyFiles] at h
    split at h
    next hskip =>
      rw [ih h]
      simp [hskip]
    next hskip =>
      obtain ⟨disk₁, hcopy, hrest⟩ := Option.bind_eq_some_iff.1 h
      rw [ih hrest, get?_create hcopy, List.exists_mem_cons_iff]
      simp only [Bool.eq_false_iff.2 hskip, true_and]
      rw [or_left_comm, or_assoc]

theorem get?_copyDirs {dirs : List (OsName × Tree)} (h : sandbox.copyDirs dirs disk = some disk') (p : Path)
    (k : Kind) : disk'.get? p = some k ↔
      (∃ d ∈ dirs, sandbox.shouldSkipDir d.1 = false ∧
        ((p = join d.1 ∧ k = .dir) ∨ ∃ q, d.2.Has q k ∧ p = join d.1 ++ q)) ∨ disk.get? p = some k := by
  induction dirs generalizing disk with
  | nil =>
    cases h
    simp
  | cons d dirs ih =>
    obtain ⟨name, entries⟩ := d
    rw [copyDirs] at h
    split at h
    next hskip =>
      rw [ih h]
      simp [hskip]
    next hskip =>
      obtain ⟨disk₂, hdir, hrest⟩ := Option.bind_eq_some_iff.1 h
      obtain ⟨disk₁, hcreate, hentries⟩ := Option.bind_eq_some_iff.1 hdir
      rw [ih hrest, get?_copyEntries hentries, get?_create hcreate, List.exists_mem_cons_iff]
      simp only [Bool.eq_false_iff.2 hskip, true_and]
      constructor
      · rintro (hlater | hbelow | hnew | hold)
        · exact .inl (.inr hlater)
        · exact .inl (.inl (.inr hbelow))
        · exact .inl (.inl (.inl hnew))
        · exact .inr hold
      · rintro (((hnew | hbelow) | hlater) | hold)
        · exact .inr (.inr (.inl hnew))
        · exact .inr (.inl hbelow)
        · exact .inl hlater
        · exact .inr (.inr (.inr hold))

/-- Everything in the sandbox: its root, the files and directories of the workspace's root that are not
    skipped, and all that is below those directories. -/
theorem get?_setup {workspace : Tree} (h : sandbox.setup workspace = some disk) (p : Path) (k : Kind) :
    disk.get? p = some k ↔
      (∃ d ∈ workspace.dirs, sandbox.shouldSkipDir d.1 = false ∧
        ((p = join d.1 ∧ k = .dir) ∨ ∃ q, d.2.Has q k ∧ p = join d.1 ++ q)) ∨
      (∃ name ∈ workspace.files, sandbox.shouldSkipFile (name.toStr.getD "") = false ∧ p = join name ∧ k = .file) ∨
      (p = [] ∧ k = .dir) := by
  obtain ⟨disk₂, hfiles, hdirs⟩ := Option.bind_eq_some_iff.1 h
  obtain ⟨disk₁, hcreate, hfiles⟩ := Option.bind_eq_some_iff.1 hfiles
  rw [sandbox.get?_copyDirs hdirs, sandbox.get?_copyFiles hfiles, get?_create hcreate]
  simp

/-! ## What must not be there -/

/-- A file that is never copied, an excluded directory, and for a commercial model a blocked file. -/
def ForbiddenName (name : String) : Kind → Prop
  | .file => sandbox.taxonomy.isNeverCopy name = true ∨
      (sandbox.commercialModel = true ∧ name ∈ commercialBlockedFiles)
  | .dir => name ∈ excludedDirs

instance (name : String) : (k : Kind) → Decidable (sandbox.ForbiddenName name k)
  | .file => inferInstanceAs (Decidable (_ ∨ _))
  | .dir => inferInstanceAs (Decidable (_ ∈ _))

/-- The same by its path, and for a commercial model anything in a sensitive department. -/
def Forbidden (p : Path) (k : Kind) : Prop :=
  (∃ last name, p.getLast? = some last ∧ last.toStr = some name ∧ sandbox.ForbiddenName name k) ∨
    (sandbox.commercialModel = true ∧ sandbox.taxonomy.isSensitivePath p = true)

/-- A directory that is in no sensitive department makes no difference to what is below it. -/
theorem forbidden_append {dir : Path}
    (hdir : sandbox.commercialModel = true → sandbox.taxonomy.isSensitivePath dir = false) (hp : p ≠ []) :
    sandbox.Forbidden (dir ++ p) k ↔ sandbox.Forbidden p k := by
  have hsame : (dir ++ p).getLast? = p.getLast? := by
    rw [List.getLast?_append, List.getLast?_eq_some_getLast hp, Option.some_or]
  rw [Forbidden, Forbidden, hsame]
  refine or_congr_right (and_congr_right fun hcommercial => ?_)
  have hsplit : sandbox.taxonomy.isSensitivePath (dir ++ p) =
      (sandbox.taxonomy.isSensitivePath dir || sandbox.taxonomy.isSensitivePath p) := List.any_append
  rw [hsplit, hdir hcommercial, Bool.false_or]

theorem join_eq (name : OsName) :
    join name = [] ∨ ∃ str, name = .utf8 str ∧ join name = [name] ∧ name.toStr = some str := by
  rw [join]
  split
  · exact .inl rfl
  next hname =>
    cases name with
    | utf8 str => exact .inr ⟨str, rfl, rfl, rfl⟩
    | raw bytes => exact absurd rfl hname

theorem not_forbidden_nil (k : Kind) : ¬ sandbox.Forbidden [] k := by
  rintro (⟨last, name, hlast, -⟩ | ⟨-, hsensitive⟩)
  · cases hlast
  · cases hsensitive

theorem not_forbidden_of_shouldSkipDir {name : OsName} (h : sandbox.shouldSkipDir name = false) :
    (sandbox.commercialModel = true → sandbox.taxonomy.isSensitivePath (join name) = false) ∧
      ¬ sandbox.Forbidden (join name) .dir := by
  rw [shouldSkipDir, Bool.or_eq_false_iff] at h
  obtain ⟨hexcluded, hsensitive⟩ := h
  rcases join_eq name with hnil | ⟨str, rfl, hjoin, hstr⟩
  · rw [hnil]
    exact ⟨fun _ => rfl, sandbox.not_forbidden_nil .dir⟩
  · rw [hjoin]
    have hname : sandbox.commercialModel = true → sandbox.taxonomy.isSensitivePath [.utf8 str] = false := by
      intro hcommercial
      rw [hcommercial, Bool.true_and, Taxonomy.isSensitivePath, List.any_append, Bool.or_eq_false_iff] at hsensitive
      exact hsensitive.2
    refine ⟨hname, ?_⟩
    rintro (⟨last, name, hlast, hlastStr, hforbidden⟩ | ⟨hcommercial, hsens⟩)
    · cases hlast
      cases hlastStr
      rw [hstr, Option.getD_some] at hexcluded
      exact absurd (List.contains_iff_mem.2 hforbidden) (Bool.eq_false_iff.1 hexcluded)
    · rw [hname hcommercial] at hsens
      cases hsens

/-- A file that is not skipped is forbidden only if it is named like a sensitive department. -/
theorem forbidden_of_shouldSkipFile {name : OsName} (h : sandbox.shouldSkipFile (name.toStr.getD "") = false) :
    sandbox.Forbidden (join name) .file ↔
      sandbox.commercialModel = true ∧ sandbox.taxonomy.isSensitivePath (join name) = true := by
  refine or_iff_right ?_
  rintro ⟨last, str, hlast, hstr, hforbidden⟩
  rcases join_eq name with hnil | ⟨str', rfl, hjoin, hstr'⟩
  · rw [hnil] at hlast
    cases hlast
  · rw [hjoin] at hlast
    cases hlast
    cases hstr
    rw [hstr', Option.getD_some, shouldSkipFile, Bool.or_eq_false_iff] at h
    rcases hforbidden with hnever | ⟨hcommercial, hblocked⟩
    · rw [h.1] at hnever
      cases hnever
    · rw [hcommercial, Bool.true_and] at h
      exact absurd (List.contains_iff_mem.2 hblocked) (Bool.eq_false_iff.1 h.2)

end Sandbox

/-- For every workspace and taxonomy: after a successful `setup` nothing forbidden is in the sandbox, exactly
    if nothing forbidden is anywhere below the directories of the workspace's root that are copied, and no
    copied file of the root has the name of a sensitive department. -/
theorem setup_confidential_iff (sandbox : Sandbox) (workspace : Sandbox.Tree) {disk : Sandbox.Disk}
    (h : sandbox.setup workspace = some disk) :
    (∀ p k, disk.get? p = some k → ¬ sandbox.Forbidden p k) ↔
      (∀ d ∈ workspace.dirs, sandbox.shouldSkipDir d.1 = false → ∀ p k, d.2.Has p k → ¬ sandbox.Forbidden p k) ∧
      ∀ name ∈ workspace.files, sandbox.shouldSkipFile (name.toStr.getD "") = false →
        sandbox.commercialModel = true → sandbox.taxonomy.isSensitivePath (Sandbox.join name) = false := by
  constructor
  · intro hclean
    constructor
    · intro d hd hskip p k hp hforbidden
      obtain ⟨hsensitive, -⟩ := sandbox.not_forbidden_of_shouldSkipDir hskip
      refine hclean (Sandbox.join d.1 ++ p) k ?_ ((sandbox.forbidden_append hsensitive hp.ne_nil).2 hforbidden)
      exact (sandbox.get?_setup h _ k).2 (.inl ⟨d, hd, hskip, .inr ⟨p, hp, rfl⟩⟩)
    · intro name hname hskip hcommercial
      rw [Bool.eq_false_iff]
      intro hsensitive
      refine hclean (Sandbox.join name) .file ?_
        ((sandbox.forbidden_of_shouldSkipFile hskip).2 ⟨hcommercial, hsensitive⟩)
      exact (sandbox.get?_setup h _ _).2 (.inr (.inl ⟨name, hname, hskip, rfl, rfl⟩))
  · rintro ⟨hbelow, hfiles⟩ p k hp hforbidden
    rcases (sandbox.get?_setup h p k).1 hp with ⟨d, hd, hskip, hat⟩ | ⟨name, hname, hskip, rfl, rfl⟩ | ⟨rfl, rfl⟩
    · obtain ⟨hsensitive, hdir⟩ := sandbox.not_forbidden_of_shouldSkipDir hskip
      rcases hat with ⟨rfl, rfl⟩ | ⟨q, hq, rfl⟩
      · exact hdir hforbidden
      · exact hbelow d hd hskip q k hq ((sandbox.forbidden_append hsensitive hq.ne_nil).1 hforbidden)
    · obtain ⟨hcommercial, hsensitive⟩ := (sandbox.forbidden_of_shouldSkipFile hskip).1 hforbidden
      rw [hfiles name hname hskip hcommercial] at hsensitive
      cases hsensitive
    · exact sandbox.not_forbidden_nil _ hforbidden

/-- One of the default patterns and one of the default departments, with a commercial model. -/
def Sandbox.commercial : Sandbox where
  companyRoot := [.utf8 "srv", .utf8 "acme"]
  commercialModel := true
  taxonomy := { neverCopy := [fun name => name == "token.json"], sensitiveDepts := ["hr"] }

/-- A root with a readme, a file that is never copied, a sensitive department and a project with one file. -/
def Sandbox.cleanWorkspace : Sandbox.Tree :=
  .file (.utf8 "readme.md") (.file (.utf8 "token.json") (.dir (.utf8 "hr") (.file (.utf8 "salaries.csv") .nil)
    (.dir (.utf8 "projects") (.file (.utf8 "plan.txt") .nil) .nil)))

theorem setup_confidential_of_clean :
    ∃ disk, Sandbox.commercial.setup Sandbox.cleanWorkspace = some disk ∧
      disk.get? [.utf8 "projects", .utf8 "plan.txt"] = some .file ∧
      ∀ p k, disk.get? p = some k → ¬ Sandbox.commercial.Forbidden p k := by
  have hrun : (Sandbox.commercial.setup Sandbox.cleanWorkspace).map
      (fun disk => disk.get? [.utf8 "projects", .utf8 "plan.txt"]) = some (some .file) := by decide +kernel
  obtain ⟨disk, hsetup, hplan⟩ := Option.map_eq_some_iff.1 hrun
  refine ⟨disk, hsetup, hplan, (setup_confidential_iff _ _ hsetup).2 ⟨?_, by decide +kernel⟩⟩
  intro d hd hskip p k hp hforbidden
  -- `hr` is skipped, and `projects` has one file, which no rule is about
  rcases List.mem_pair.1 hd with rfl | rfl
  · exact absurd hskip (by decide +kernel)
  · rcases hp with ⟨rfl, rfl⟩ | hp
    · rcases hforbidden with ⟨last, name, hlast, hname, hforbidden⟩ | ⟨-, hsensitive⟩
      · cases hlast
        cases hname
        exact absurd hforbidden (by decide +kernel)
      · exact absurd hsensitive (by decide +kernel)
    · exact hp.elim

/-- The same names one level down are all copied. -/
def Sandbox.nestedWorkspace : Sandbox.Tree :=
  .dir (.utf8 "projects") (.file (.utf8 "token.json") (.file (.utf8 "AGENTS.md") (.dir (.utf8 ".git") .nil
    (.dir (.utf8 "hr") (.file (.utf8 "salaries.csv") .nil) .nil)))) .nil

theorem setup_copies_nested :
    ∃ disk, Sandbox.commercial.setup Sandbox.nestedWorkspace = some disk ∧
      (disk.get? [.utf8 "projects", .utf8 "token.json"] = some .file ∧
        Sandbox.commercial.taxonomy.isNeverCopy "token.json" = true) ∧
      (disk.get? [.utf8 "projects", .utf8 ".git"] = some .dir ∧ ".git" ∈ Sandbox.excludedDirs) ∧
      (disk.get? [.utf8 "projects", .utf8 "AGENTS.md"] = some .file ∧
        "AGENTS.md" ∈ Sandbox.commercialBlockedFiles) ∧
      (disk.get? [.utf8 "projects", .utf8 "hr", .utf8 "salaries.csv"] = some .file ∧
        Sandbox.commercial.taxonomy.isSensitivePath [.utf8 "projects", .utf8 "hr", .utf8 "salaries.csv"] = true) := by
  decide +kernel

end Tagsmaxxing
