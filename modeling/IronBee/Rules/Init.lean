import IronBee.CTypes

/-! # The rules module's set-up and tear-down

`rules_init` initialises `g_lua_lock`, registers `clean_up_ipc_mem` with `atexit`, creates
the shared Lua state and loads the FFI script from `module_base_path/ironbee-ffi.lua`, whose
path it builds in a block of exactly the right size. `clean_up_ipc_mem` destroys the lock;
`rules_init` calls it on most error paths, and `rules_fini` destroys the lock itself. A
failed `ib_lock_init` is logged and otherwise ignored.
-/

namespace IronBee.Rules

/-- The state of `g_lua_lock`. -/
inductive LockState where
  | uninit
  | live
  | destroyed
  deriving DecidableEq, Repr

/-- The process state the module's set-up and tear-down act on: the lock, the Lua state, the
`atexit` registrations and the blocks `malloc` handed out. -/
structure ModuleGlobals where
  lock : LockState
  luaOpen : Bool
  exitHandlers : Nat
  heap : Nat
  deriving DecidableEq, Repr

def ModuleGlobals.init : ModuleGlobals := ⟨.uninit, false, 0, 0⟩

def ModuleGlobals.malloc (g : ModuleGlobals) : ModuleGlobals := { g with heap := g.heap + 1 }

def ModuleGlobals.free (g : ModuleGlobals) : ModuleGlobals := { g with heap := g.heap - 1 }

/-- `atexit(&clean_up_ipc_mem)`. -/
def ModuleGlobals.registerExit (g : ModuleGlobals) : ModuleGlobals :=
  { g with exitHandlers := g.exitHandlers + 1 }

/-- `g_ironbee_rules_lua = luaL_newstate()`: whether it holds a Lua state. -/
def ModuleGlobals.setLua (g : ModuleGlobals) (opened : Bool) : ModuleGlobals :=
  { g with luaOpen := opened }

/-- `clean_up_ipc_mem()`: `ib_lock_destroy(&g_lua_lock)`. -/
def cleanUpIpcMem (g : ModuleGlobals) : ModuleGlobals := { g with lock := .destroyed }

/-- What `rules_init` learns from the calls it makes: their statuses, whether `m` is set and
`luaL_newstate` and `malloc` succeed, and the `module_base_path`. -/
structure InitEnv where
  lockInit : Status
  module : Bool
  newState : Bool
  moduleConfig : Status
  moduleBasePath : List Char
  pathAlloc : Bool
  loadEval : Status
  requireIronbee : Status
  requireFfi : Status
  deriving DecidableEq, Repr

/-- `ffi_file_name`. -/
def ffiFileName : List Char := "ironbee-ffi.lua".toList

/-- The three `strcpy` calls that build `module_base_path/ffi_file_name` in a block of `cap`
bytes; each `strcpy` after the first writes at the end of the string, as `strcat` does. -/
def ffiFilePath (cap : Nat) (base : List Char) : Option CBuf :=
  (CBuf.strcpy cap base).bind fun b => (b.strcat "/".toList).bind fun b => b.strcat ffiFileName

/-- `ib_lock_init(&g_lua_lock)`, whose failure is only logged. -/
def lockInit (env : InitEnv) (g : ModuleGlobals) : ModuleGlobals :=
  if env.lockInit = .ok then { g with lock := .live } else g

/-- The end of `rules_init`, once the path is built in the block `malloc` gave: it loads the
FFI script and requires the two modules, giving the block back on every return. -/
def loadFfi (env : InitEnv) (g : ModuleGlobals) (path : List Char) :
    Status × ModuleGlobals × Option (List Char) :=
  if env.loadEval ≠ .ok then (env.loadEval, cleanUpIpcMem g.free, some path)
  else if env.requireIronbee ≠ .ok then (env.requireIronbee, cleanUpIpcMem g.free, some path)
  else if env.requireFfi ≠ .ok then (env.requireFfi, cleanUpIpcMem g.free, some path)
  else (.ok, g.free, some path)

/-- `rules_init` after `ib_lock_init`: its status, the globals, and the path it loads, or `none` at
a write past the path's block. -/
def rulesSetUp (env : InitEnv) (g : ModuleGlobals) :
    Option (Status × ModuleGlobals × Option (List Char)) :=
  let g := g.registerExit
  if !env.module then some (.einval, cleanUpIpcMem g, none)
  else if !env.newState then some (.ealloc, g.setLua false, none)
  else if env.moduleConfig ≠ .ok then some (env.moduleConfig, g.setLua true, none)
  else if !env.pathAlloc then some (.ealloc, cleanUpIpcMem (g.setLua true), none)
  else
    (ffiFilePath (toSize (env.moduleBasePath.length + ffiFileName.length + 2))
      env.moduleBasePath).map fun path => loadFfi env (g.setLua true).malloc path.chars

/-- `rules_init(ib, m)`. -/
def rulesInit (env : InitEnv) (g : ModuleGlobals) :
    Option (Status × ModuleGlobals × Option (List Char)) :=
  rulesSetUp env (lockInit env g)

/-- `rules_fini(ib, m)`: the lock is destroyed, and the Lua state closed if there is one. -/
def rulesFini (g : ModuleGlobals) : ModuleGlobals :=
  { g with lock := .destroyed, luaOpen := false }

/-! ## What one call of `rules_init` does -/

theorem ffiFilePath_some {base : List Char}
    (h : base.length + ffiFileName.length + 2 < 2 ^ 64) :
    ∃ b, ffiFilePath (toSize (base.length + ffiFileName.length + 2)) base = some b ∧
      b.chars = base ++ "/".toList ++ ffiFileName := by
  have hs : toSize ((base.length : Int) + ffiFileName.length + 2) =
      base.length + ffiFileName.length + 2 := by
    have := toSize_of_lt (x := (base.length : Int) + ffiFileName.length + 2) (by omega)
      (by omega)
    omega
  have h1 : "/".toList.length = 1 := rfl
  rw [hs]
  obtain ⟨b₀, e₀, c₀, s₀⟩ := CBuf.strcpy_some (base.length + ffiFileName.length + 2)
    (s := base) (by omega)
  obtain ⟨b₁, e₁, c₁, s₁⟩ := b₀.strcat_some (s := "/".toList) (by rw [c₀, s₀, h1]; omega)
  obtain ⟨b₂, e₂, -, s₂⟩ := b₁.strcat_some (s := ffiFileName)
    (by rw [c₁, c₀, s₁, s₀, List.length_append, h1]; omega)
  exact ⟨b₂, by simp only [ffiFilePath, e₀, e₁, e₂, Option.some_bind], by rw [s₂, s₁, s₀]⟩

theorem loadFfi_cases {env : InitEnv} {g g' : ModuleGlobals} {path : List Char} {rc : Status}
    {p : Option (List Char)} (h : loadFfi env g path = (rc, g', p)) :
    (g' = g.free ∨ g' = cleanUpIpcMem g.free) ∧ p = some path := by
  unfold loadFfi at h
  split_ifs at h <;> (cases h; exact ⟨by simp, rfl⟩)

theorem rulesSetUp_cases {env : InitEnv} {g g' : ModuleGlobals} {rc : Status}
    {p : Option (List Char)} (h : rulesSetUp env g = some (rc, g', p)) :
    g'.heap = g.heap ∧ ∀ path, p = some path → ∃ b, ffiFilePath
      (toSize (env.moduleBasePath.length + ffiFileName.length + 2)) env.moduleBasePath =
        some b ∧ path = b.chars := by
  simp only [rulesSetUp] at h
  -- the four returns before the path is built load nothing and take no block
  iterate 4 (split at h; · cases h; exact ⟨rfl, fun _ hp => by cases hp⟩)
  obtain ⟨b, hb, he⟩ := Option.map_eq_some'.mp h
  obtain ⟨hg | hg, rfl⟩ := loadFfi_cases he <;> subst hg <;>
    exact ⟨Nat.add_sub_cancel _ _, fun _ hp => ⟨b, hb, (Option.some.inj hp).symm⟩⟩

theorem rulesSetUp_isSome (env : InitEnv) (g : ModuleGlobals)
    (h : env.moduleBasePath.length + ffiFileName.length + 2 < 2 ^ 64) :
    (rulesSetUp env g).isSome := by
  obtain ⟨b, hb, -⟩ := ffiFilePath_some h
  simp only [rulesSetUp]
  iterate 4 (split; rfl)
  simp [hb]

/-! ## The module's contract -/

/-- `rules_init` returns, frees the FFI path's block on every path, and loads the path it built in a
block of exactly its size. -/
theorem rulesInit_frees_path (env : InitEnv) (g : ModuleGlobals)
    (h : env.moduleBasePath.length + ffiFileName.length + 2 < 2 ^ 64) :
    ∃ rc g' p, rulesInit env g = some (rc, g', p) ∧ g'.heap = g.heap ∧
      ∀ path, p = some path → path = env.moduleBasePath ++ "/".toList ++ ffiFileName ∧
        path.length + 1 = env.moduleBasePath.length + ffiFileName.length + 2 := by
  obtain ⟨⟨rc, g', p⟩, hr⟩ := Option.isSome_iff_exists.mp (rulesSetUp_isSome env (lockInit env g) h)
  obtain ⟨hheap, hpath⟩ := rulesSetUp_cases hr
  obtain ⟨b, hb, hc⟩ := ffiFilePath_some h
  refine ⟨rc, g', p, hr, ?_, fun path hp => ?_⟩
  · rw [hheap]; unfold lockInit; split_ifs <;> rfl
  · obtain ⟨b', hb', rfl⟩ := hpath path hp
    rw [hb] at hb'
    cases hb'
    have h1 : "/".toList.length = 1 := rfl
    rw [hc, List.length_append, List.length_append, h1]
    exact ⟨rfl, by omega⟩

theorem rulesInit_frees_path_usr_lib :
    ∃ rc g' p, rulesInit ⟨.ok, true, true, .ok, "/usr/lib/ironbee".toList, true, .ok, .ok, .ok⟩
        ModuleGlobals.init = some (rc, g', p) ∧ g'.heap = 0 ∧
      ∀ path, p = some path → path = "/usr/lib/ironbee".toList ++ "/".toList ++ ffiFileName ∧
        path.length + 1 = "/usr/lib/ironbee".toList.length + ffiFileName.length + 2 :=
  rulesInit_frees_path _ _ (by decide)

end IronBee.Rules
