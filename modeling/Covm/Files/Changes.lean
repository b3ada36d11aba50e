import Covm.Files.Path

/-!
# Changing files and directories

The operations fail with the kinds of errors the system calls fail with, and what they changed
before they failed stays changed. For each one there is one lemma that says what it does to the
nodes: a file is written at one place (`writeWith_cases`), directories are added along a path
(`createDirAll_cases`), or a tree is removed (`removeDirAll_cases`).
-/

namespace Files

open Files.Path

namespace Path

/-- The path without the `.` components at its end. -/
def trim (p : Path) : Path := (p.reverse.dropWhile fun c => decide (c = .current)).reverse

/-- The path without its last component, found without regard to `.` components. -/
def parent (p : Path) : Path := trim (trim p).dropLast

theorem trim_concat_current (p : Path) : trim (p ++ [Component.current]) = trim p := by
  simp [trim]

theorem trim_concat_of_ne {p : Path} {c : Component} (hc : c ≠ .current) :
    trim (p ++ [c]) = p ++ [c] := by
  simp [trim, hc]

theorem trim_names (l : Location) : trim (names l) = names l := by
  induction l using List.reverseRecOn with
  | nil => rfl
  | append_singleton l name ih =>
    rw [names_append, names_singleton, trim_concat_of_ne (by simp)]

theorem parent_concat_of_ne {p : Path} {c : Component} (hc : c ≠ .current) :
    parent (p ++ [c]) = trim p := by
  rw [parent, trim_concat_of_ne hc, List.dropLast_concat]

theorem trim_trim (p : Path) : trim (trim p) = trim p := by
  induction p using List.reverseRecOn with
  | nil => rfl
  | append_singleton p c ih =>
    by_cases hc : c = .current
    · rw [hc, trim_concat_current, ih]
    · rw [trim_concat_of_ne hc, trim_concat_of_ne hc]

theorem getLast?_trim (p : Path) : (trim p).getLast? ≠ some .current := by
  induction p using List.reverseRecOn with
  | nil => exact nofun
  | append_singleton p c ih =>
    by_cases hc : c = .current
    · rwa [hc, trim_concat_current]
    · rw [trim_concat_of_ne hc, List.getLast?_concat]
      exact fun h => hc (Option.some.inj h)

theorem hasNul_trim (p : Path) : hasNul (trim p) = hasNul p := by
  induction p using List.reverseRecOn with
  | nil => rfl
  | append_singleton p c ih =>
    by_cases hc : c = .current
    · subst hc
      rw [trim_concat_current, ih, hasNul_append]
      simp [hasNul, Component.hasNul]
    · rw [trim_concat_of_ne hc]

/-- A dot leads nowhere new. -/
theorem mem_visited_trim {l m : Location} {p : Path} :
    m ∈ visited l (trim p) ↔ m ∈ visited l p := by
  induction p using List.reverseRecOn with
  | nil => rfl
  | append_singleton p c ih =>
    by_cases hc : c = .current
    · subst hc
      rw [trim_concat_current, ih, mem_visited_concat, target_append, target_singleton, step]
      constructor
      · exact .inl
      · rintro (hm | rfl)
        · exact hm
        · exact target_mem_visited l p
    · rw [trim_concat_of_ne hc]

theorem mem_visited_of_parent {m : Location} {p : Path} (h : m ∈ visited [] (parent p)) :
    m ∈ visited [] p := by
  rw [← mem_visited_trim]
  rw [parent, mem_visited_trim] at h
  generalize trim p = q at h ⊢
  induction q using List.reverseRecOn with
  | nil => exact h
  | append_singleton q c ih =>
    rw [List.dropLast_concat] at h
    exact mem_visited_concat.mpr (.inl h)

theorem hasNul_parent {p : Path} (h : hasNul (parent p) = true) : hasNul p = true := by
  rw [← hasNul_trim]
  rw [parent, hasNul_trim] at h
  generalize trim p = q at h ⊢
  induction q using List.reverseRecOn with
  | nil => exact h
  | append_singleton q c ih =>
    rw [List.dropLast_concat] at h
    simp [h]

end Path

namespace FileSystem

variable {C : Type}

/-- Changes of a file system that may fail. -/
abbrev Change (C α : Type) := EStateM IoError (FileSystem C) α

/-- A file is put into an existing directory. -/
def place (l : Location) (content : C) : Change C Unit := fun fs =>
  if h : l ≠ [] ∧ fs.node l.dropLast = some .directory ∧ fs.node l ≠ some .directory then
    .ok () (fs.insert l (.file content) h.1 h.2.1 (.inr h.2.2))
  else .error .isADirectory fs

/-- Creates a file or changes its content. -/
def writeWith (p : Path) (f : Option C → C) : Change C Unit := fun fs =>
  match fs.resolve p with
  | .error e => .error e fs
  | .ok l =>
    match fs.node l with
    | some .directory => .error .isADirectory fs
    | some (.file content) => place l (f (some content)) fs
    | none => place l (f none) fs

/-- Creates a file or replaces its content. -/
def write (p : Path) (content : C) : Change C Unit := writeWith p fun _ => content

def mkdir (p : Path) : Change C Unit := fun fs =>
  match fs.resolve p with
  | .error e => .error e fs
  | .ok l =>
    if h : l ≠ [] ∧ fs.node l.dropLast = some .directory ∧ fs.node l = none then
      .ok () (fs.insert l .directory h.1 h.2.1 (.inl rfl))
    else .error .alreadyExists fs

/-- `mkdir`, where a directory may be there already. -/
def mkdirUnlessDir (p : Path) : Change C Unit := fun fs =>
  match mkdir p fs with
  | .ok _ fs' => .ok () fs'
  | .error e fs' => if fs'.isDir p then .ok () fs' else .error e fs'

/-- `mkdir`, with the parent made first if something is missing. -/
def mkdirAfter (p : Path) (createParent : Change C Unit) : Change C Unit := fun fs =>
  match mkdirUnlessDir p fs with
  | .error .notFound fs' =>
    match createParent fs' with
    | .ok _ fs'' => mkdirUnlessDir p fs''
    | .error e fs'' => .error e fs''
  | r => r

/-- `create_dir_all` of a path that is given in reverse and does not end with `.` components. -/
def createDirs : List Component → Change C Unit
  | [] => pure ()
  | .current :: rest => createDirs rest
  | c :: rest => mkdirAfter (c :: rest).reverse (createDirs rest)

def createDirAll (p : Path) : Change C Unit := mkdirAfter p (createDirs (parent p).reverse)

/-- Removes the content of a directory and then the directory, which is possible only under a
name. After its content a directory called `..` may not be found any more, which is not an error;
one called `.` is refused. -/
def removeDirAll (p : Path) : Change C Unit := fun fs =>
  match fs.resolve p with
  | .error e => .error e fs
  | .ok l =>
    match fs.node l with
    | none => .error .notFound fs
    | some (.file _) => .error .notADirectory fs
    | some .directory =>
      match p.getLast? with
      | none => .error .busy (fs.clear l)
      | some .current => .error .invalidArgument (fs.clear l)
      | some .parent =>
        if (fs.clear l).exists_ p then .error .directoryNotEmpty (fs.clear l)
        else .ok () (fs.clear l)
      | some (.name _) =>
        if h : l ≠ [] then .ok () (fs.removeTree l h) else .error .busy fs

/-! ## Files -/

/-- The content of what may be a file. -/
def contentOf : Option (Node C) → Option C
  | some (.file content) => some content
  | _ => none

theorem contentOf_eq_some {n : Option (Node C)} {content : C} :
    contentOf n = some content ↔ n = some (.file content) := by
  unfold contentOf
  split <;> simp_all

theorem place_of_parent {fs : FileSystem C} {l : Location} {name : String} (content : C)
    (hparent : fs.node l = some .directory) (hfile : fs.node (l ++ [name]) ≠ some .directory) :
    ∃ fs', place (l ++ [name]) content fs = .ok () fs' ∧
      fs'.node = Function.update fs.node (l ++ [name]) (some (.file content)) := by
  have h : l ++ [name] ≠ [] ∧ fs.node (l ++ [name]).dropLast = some .directory ∧
      fs.node (l ++ [name]) ≠ some .directory := by
    refine ⟨List.concat_ne_nil name l, ?_, hfile⟩
    rw [List.dropLast_concat, hparent]
  refine ⟨fs.insert _ (.file content) h.1 h.2.1 (.inr h.2.2), ?_, node_insert ..⟩
  rw [place, dif_pos h]

theorem node_of_enter {fs : FileSystem C} {p : Path} {l : Location} (h : fs.enter p = some l) :
    fs.node l = some .directory := by
  obtain ⟨-, rfl, hvisited⟩ := enter_eq_some.mp h
  exact hvisited _ (target_mem_visited [] p)

/-- A file is written where the path before its name leads to. -/
theorem writeWith_of_enter {p : Path} {name : String} {l : Location} {fs : FileSystem C}
    (hname : '\x00' ∉ name.toList) (f : Option C → C) (henter : fs.enter p = some l)
    (hfile : fs.node (l ++ [name]) ≠ some .directory) :
    ∃ fs', writeWith (p ++ [Component.name name]) f fs = .ok () fs' ∧
      fs'.node = Function.update fs.node (l ++ [name])
        (some (.file (f (contentOf (fs.node (l ++ [name])))))) := by
  unfold writeWith
  rw [(resolve_concat_name hname).mpr ⟨l, henter, rfl⟩]
  have hparent := node_of_enter henter
  cases hnode : fs.node (l ++ [name]) with
  | none =>
    dsimp only
    rw [hnode]
    exact place_of_parent _ hparent hfile
  | some n =>
    cases n with
    | directory => exact absurd hnode hfile
    | file content =>
      dsimp only
      rw [hnode]
      exact place_of_parent _ hparent hfile

theorem writeWith_error {p : Path} {name : String} (fs : FileSystem C)
    (hname : '\x00' ∉ name.toList) (f : Option C → C)
    (h : ∀ l, fs.enter p = some l → fs.node (l ++ [name]) = some .directory) :
    ∃ e, writeWith (p ++ [Component.name name]) f fs = .error e fs := by
  unfold writeWith
  cases hresolve : fs.resolve (p ++ [Component.name name]) with
  | error e => exact ⟨e, rfl⟩
  | ok m =>
    obtain ⟨l, henter, rfl⟩ := (resolve_concat_name hname).mp hresolve
    dsimp only
    rw [h l henter]
    exact ⟨_, rfl⟩

/-! ## Directories -/

/-- Directories are there along a path, everything else is as it was. -/
def AddedAlong (p : Path) (fs fs' : FileSystem C) : Prop :=
  ∀ m, fs'.node m = if m ∈ visited [] p then some .directory else fs.node m

/-- Directories may have been added along a path, everything else is as it was. -/
def AddedOn (p : Path) (fs fs' : FileSystem C) : Prop :=
  ∀ m, fs'.node m = fs.node m ∨
    (m ∈ visited [] p ∧ fs.node m = none ∧ fs'.node m = some .directory)

/-- What keeps a path from leading to a directory. -/
def Blocked (p : Path) (fs : FileSystem C) : Prop :=
  hasNul p = true ∨ ∃ m ∈ visited [] p, ∃ content, fs.node m = some (.file content)

/-- How `create_dir_all` ends, apart from paths with a dot at their end. -/
def Creates (p : Path) (fs : FileSystem C) : EStateM.Result IoError (FileSystem C) Unit → Prop
  | .ok _ fs' => ¬ Blocked p fs ∧ AddedAlong p fs fs'
  | .error _ fs' => Blocked p fs ∧ AddedOn p fs fs'

theorem AddedOn.refl (p : Path) (fs : FileSystem C) : AddedOn p fs fs := fun _ => .inl rfl

theorem AddedAlong.on {p : Path} {fs fs' : FileSystem C} (h : AddedAlong p fs fs')
    (hfree : ¬ Blocked p fs) : AddedOn p fs fs' := by
  intro m
  have hm := h m
  split at hm
  · next hvisited =>
    cases hnode : fs.node m with
    | none => exact .inr ⟨hvisited, rfl, hm⟩
    | some n =>
      cases n with
      | directory => exact .inl hm
      | file content => exact absurd (.inr ⟨m, hvisited, content, hnode⟩) hfree
  · exact .inl hm

theorem mkdirUnlessDir_of_enter {p : Path} {l : Location} {fs : FileSystem C}
    (hl : fs.enter p = some l) (hmkdir : mkdir p fs = .error .alreadyExists fs) :
    mkdirUnlessDir p fs = .ok () fs ∧ ¬ Blocked p fs ∧ AddedAlong p fs fs := by
  obtain ⟨hnul, -, hvisited⟩ := enter_eq_some.mp hl
  refine ⟨?_, ?_, ?_⟩
  · rw [mkdirUnlessDir, hmkdir]
    exact if_pos (isDir_eq_true.mpr ⟨l, hl⟩)
  · rintro (hblocked | ⟨m, hm, content, hfile⟩)
    · simp [hnul] at hblocked
    · simp [hvisited m hm] at hfile
  · intro m
    split
    · next hm => exact hvisited m hm
    · rfl

theorem mkdirUnlessDir_of_error {p : Path} {fs : FileSystem C} {e : IoError}
    (hnone : ∀ l, fs.enter p ≠ some l) (hmkdir : mkdir p fs = .error e fs) :
    mkdirUnlessDir p fs = .error e fs := by
  have hnot : fs.isDir p = false := by
    rw [← Bool.not_eq_true, isDir_eq_true]
    rintro ⟨l, hl⟩
    exact hnone l hl
  rw [mkdirUnlessDir, hmkdir]
  simp [hnot]

theorem eq_name_of_node_eq_none {p : Path} {c : Component} {fs : FileSystem C}
    (hvisited : ∀ x ∈ visited [] p, fs.node x = some .directory)
    (hnode : fs.node (target [] (p ++ [c])) = none) : ∃ name, c = .name name := by
  have hlast := hvisited _ (target_mem_visited [] p)
  rw [target_append, target_singleton] at hnode
  cases c with
  | current =>
    rw [step, hlast] at hnode
    simp at hnode
  | parent =>
    rw [step] at hnode
    rw [fs.node_eq_none_of_isPrefix hnode (List.dropLast_prefix _)] at hlast
    simp at hlast
  | name name => exact ⟨name, rfl⟩

theorem mkdir_of_missing {p : Path} {l : Location} {name : String} {fs : FileSystem C}
    (hresolve : fs.resolve p = .ok (l ++ [name])) (hparent : fs.node l = some .directory)
    (hnode : fs.node (l ++ [name]) = none) :
    ∃ fs', mkdir p fs = .ok () fs' ∧
      fs'.node = Function.update fs.node (l ++ [name]) (some .directory) := by
  have h : l ++ [name] ≠ [] ∧ fs.node (l ++ [name]).dropLast = some .directory ∧
      fs.node (l ++ [name]) = none := by
    refine ⟨List.concat_ne_nil name l, ?_, hnode⟩
    rw [List.dropLast_concat, hparent]
  refine ⟨fs.insert _ .directory h.1 h.2.1 (.inl rfl), ?_, node_insert ..⟩
  rw [mkdir, hresolve]
  exact dif_pos h

/-- How `mkdir` ends when a directory may be there already: it is there afterwards, or something
on the way is missing, or the way is blocked. -/
theorem mkdirUnlessDir_cases (p : Path) (fs : FileSystem C) :
    (∃ fs', mkdirUnlessDir p fs = .ok () fs' ∧ ¬ Blocked p fs ∧ AddedAlong p fs fs') ∨
    (mkdirUnlessDir p fs = .error .notFound fs ∧ ∃ m ∈ visited [] p.dropLast, fs.node m = none) ∨
    ∃ e, e ≠ .notFound ∧ mkdirUnlessDir p fs = .error e fs ∧ Blocked p fs := by
  induction p using List.reverseRecOn with
  | nil =>
    have hroot : fs.enter [] = some [] := by simp [enter_eq_some, hasNul, visited]
    exact .inl ⟨fs, mkdirUnlessDir_of_enter hroot rfl⟩
  | append_singleton p c _ =>
    rw [List.dropLast_concat]
    by_cases hnul : hasNul (p ++ [c])
    · right; right
      refine ⟨.nulByte, by simp, mkdirUnlessDir_of_error ?_ ?_, .inl hnul⟩
      · intro l hl
        simp [(enter_eq_some.mp hl).1] at hnul
      · rw [mkdir, resolve_of_hasNul hnul]
    rw [Bool.not_eq_true] at hnul
    cases hwalk : fs.walk [] (p ++ [c]) with
    | error e =>
      have hmkdir : mkdir (p ++ [c]) fs = .error e fs := by
        rw [mkdir, resolve_of_not_hasNul hnul, hwalk]
      have hnone : ∀ l, fs.enter (p ++ [c]) ≠ some l := by
        intro l hl
        obtain ⟨-, -, hvisited⟩ := enter_eq_some.mp hl
        rw [walk_concat_eq_ok.mpr ⟨rfl, fun x hx => hvisited x (mem_visited_concat.mpr (.inl hx))⟩]
          at hwalk
        simp at hwalk
      have herror := mkdirUnlessDir_of_error hnone hmkdir
      obtain ⟨rfl, hmissing⟩ | ⟨rfl, m, hm, hfile⟩ := walk_concat_eq_error hwalk
      · exact .inr (.inl ⟨herror, hmissing⟩)
      · exact .inr (.inr ⟨_, by simp, herror, .inr ⟨m, mem_visited_concat.mpr (.inl hm), hfile⟩⟩)
    | ok l =>
      obtain ⟨rfl, hvisited⟩ := walk_concat_eq_ok.mp hwalk
      have hresolve : fs.resolve (p ++ [c]) = _ := (resolve_of_not_hasNul hnul).trans hwalk
      cases hnode : fs.node (target [] (p ++ [c])) with
      | none =>
        left
        obtain ⟨name, rfl⟩ := eq_name_of_node_eq_none hvisited hnode
        rw [target_append, target_singleton, step] at hnode hresolve
        obtain ⟨fs', hmkdir, hnode'⟩ :=
          mkdir_of_missing hresolve (hvisited _ (target_mem_visited [] p)) hnode
        refine ⟨fs', ?_, ?_, ?_⟩
        · rw [mkdirUnlessDir, hmkdir]
        · rintro (hblocked | ⟨m, hm, content, hfile⟩)
          · simp [hnul] at hblocked
          · obtain hm | rfl := mem_visited_concat.mp hm
            · simp [hvisited m hm] at hfile
            · simp [step, hnode] at hfile
        · intro m
          simp only [hnode', mem_visited_concat, target_append, target_singleton, step]
          by_cases heq : m = target [] p ++ [name]
          · simp [heq]
          · rw [Function.update_of_ne heq]
            by_cases hm : m ∈ visited [] p
            · rw [if_pos (.inl hm), hvisited m hm]
            · rw [if_neg (by simp [hm, heq])]
      | some n =>
        have hmkdir : mkdir (p ++ [c]) fs = .error .alreadyExists fs := by
          rw [mkdir, hresolve]
          refine dif_neg fun h => ?_
          rw [h.2.2] at hnode
          simp at hnode
        cases n with
        | directory =>
          have henter : fs.enter (p ++ [c]) = some (target [] (p ++ [c])) := by
            refine enter_eq_some.mpr ⟨hnul, rfl, ?_⟩
            intro x hx
            obtain hx | rfl := mem_visited_concat.mp hx
            · exact hvisited x hx
            · exact hnode
          exact .inl ⟨fs, mkdirUnlessDir_of_enter henter hmkdir⟩
        | file content =>
          right; right
          refine ⟨_, by simp, mkdirUnlessDir_of_error ?_ hmkdir,
            .inr ⟨_, mem_visited_concat.mpr (.inr rfl), content, hnode⟩⟩
          intro l hl
          obtain ⟨-, rfl, -⟩ := enter_eq_some.mp hl
          rw [node_of_enter hl] at hnode
          simp at hnode

/-! ### Whole paths -/

theorem AddedAlong.trans {p q : Path} {fs fs' fs'' : FileSystem C} (h : AddedAlong q fs fs')
    (h' : AddedAlong p fs' fs'') (hsub : ∀ m ∈ visited [] q, m ∈ visited [] p) :
    AddedAlong p fs fs'' := by
  intro m
  rw [h' m, h m]
  by_cases hm : m ∈ visited [] p
  · rw [if_pos hm, if_pos hm]
  · rw [if_neg hm, if_neg hm, if_neg (fun hq => hm (hsub m hq))]

theorem AddedOn.mono {p q : Path} {fs fs' : FileSystem C} (h : AddedOn q fs fs')
    (hsub : ∀ m ∈ visited [] q, m ∈ visited [] p) : AddedOn p fs fs' := by
  intro m
  obtain hm | ⟨hvisited, hm⟩ := h m
  · exact .inl hm
  · exact .inr ⟨hsub m hvisited, hm⟩

/-- Added directories block nothing. -/
theorem AddedAlong.blocked_iff {p q : Path} {fs fs' : FileSystem C} (h : AddedAlong q fs fs')
    (hfree : ¬ Blocked q fs) : Blocked p fs' ↔ Blocked p fs := by
  unfold Blocked
  apply or_congr_right
  apply exists_congr
  intro m
  apply and_congr_right
  intro _
  rw [h m]
  split
  · next hm =>
    constructor
    · rintro ⟨content, hfile⟩
      exact nomatch hfile
    · intro hfile
      exact absurd (.inr ⟨m, hm, hfile⟩) hfree
  · rfl

theorem Blocked.mono {p q : Path} {fs : FileSystem C} (h : Blocked q fs)
    (hnul : hasNul q = true → hasNul p = true) (hsub : ∀ m ∈ visited [] q, m ∈ visited [] p) :
    Blocked p fs := by
  obtain h | ⟨m, hm, hfile⟩ := h
  · exact .inl (hnul h)
  · exact .inr ⟨m, hsub m hm, hfile⟩

/-- A path is made once the one before it is, except for what that one does not go through. -/
theorem mkdirAfter_cases {p q : Path} {createParent : Change C Unit}
    (hcreate : ∀ fs, Creates q fs (createParent fs)) (hnul : hasNul q = true → hasNul p = true)
    (hsub : ∀ m ∈ visited [] q, m ∈ visited [] p) (fs : FileSystem C) :
    (∃ fs', mkdirAfter p createParent fs = .ok () fs' ∧ ¬ Blocked p fs ∧ AddedAlong p fs fs') ∨
    ∃ e fs', mkdirAfter p createParent fs = .error e fs' ∧ AddedOn p fs fs' ∧
      (Blocked p fs ∨ ∃ m ∈ visited [] p.dropLast, m ∉ visited [] q) := by
  unfold mkdirAfter
  obtain ⟨fs', hmkdir, hadded⟩ | ⟨hmkdir, -⟩ | ⟨e, hne, hmkdir, hblocked⟩ :=
    mkdirUnlessDir_cases p fs
  · rw [hmkdir]
    exact .inl ⟨fs', rfl, hadded⟩
  · rw [hmkdir]
    dsimp only
    have hq := hcreate fs
    cases hcreated : createParent fs with
    | error e fs' =>
      rw [hcreated] at hq
      exact .inr ⟨e, fs', rfl, hq.2.mono hsub, .inl (hq.1.mono hnul hsub)⟩
    | ok _ fs' =>
      rw [hcreated] at hq
      dsimp only
      have hon := (hq.2.on hq.1).mono hsub
      obtain ⟨fs'', hmkdir', hfree, hadded⟩ | ⟨hmkdir', m, hm, hnone⟩ |
        ⟨e, -, hmkdir', hblocked⟩ := mkdirUnlessDir_cases p fs'
      · rw [hmkdir']
        exact .inl ⟨fs'', rfl, (hq.2.blocked_iff hq.1).not.mp hfree, hq.2.trans hadded hsub⟩
      · rw [hmkdir']
        refine .inr ⟨_, fs', rfl, hon, .inr ⟨m, hm, fun hmq => ?_⟩⟩
        rw [hq.2 m, if_pos hmq] at hnone
        exact nomatch hnone
      · rw [hmkdir']
        exact .inr ⟨e, fs', rfl, hon, .inl ((hq.2.blocked_iff hq.1).mp hblocked)⟩
  · rw [hmkdir]
    refine .inr ⟨e, fs, ?_, .refl p fs, .inl hblocked⟩
    cases e with
    | notFound => exact absurd rfl hne
    | _ => rfl

theorem mkdirAfter_creates {p q : Path} {createParent : Change C Unit}
    (hcreate : ∀ fs, Creates q fs (createParent fs)) (hnul : hasNul q = true → hasNul p = true)
    (hsub : ∀ m ∈ visited [] q, m ∈ visited [] p)
    (hparent : ∀ m ∈ visited [] p.dropLast, m ∈ visited [] q) (fs : FileSystem C) :
    Creates p fs (mkdirAfter p createParent fs) := by
  obtain ⟨fs', hok, hadded⟩ | ⟨e, fs', herror, hon, hblocked | ⟨m, hm, hnot⟩⟩ :=
    mkdirAfter_cases hcreate hnul hsub fs
  · rw [hok]
    exact hadded
  · rw [herror]
    exact ⟨hblocked, hon⟩
  · exact absurd (hparent m hm) hnot

theorem not_blocked_nil (fs : FileSystem C) : ¬ Blocked [] fs := by
  rintro (h | ⟨m, hm, content, hfile⟩)
  · exact nomatch h
  · rw [visited, List.mem_singleton] at hm
    simp [hm] at hfile

/-- Paths through the same places are made alike. -/
theorem Creates.congr {p q : Path} {fs : FileSystem C}
    {r : EStateM.Result IoError (FileSystem C) Unit} (h : Creates q fs r)
    (hnul : hasNul q = hasNul p) (hsame : ∀ m, m ∈ visited [] q ↔ m ∈ visited [] p) :
    Creates p fs r := by
  have hblocked : Blocked q fs ↔ Blocked p fs := by
    unfold Blocked
    rw [hnul]
    simp only [hsame]
  cases r with
  | ok _ fs' =>
    refine ⟨hblocked.not.mp h.1, ?_⟩
    intro m
    rw [h.2 m, if_congr (hsame m) rfl rfl]
  | error e fs' => exact ⟨hblocked.mp h.1, h.2.mono fun m => (hsame m).mp⟩

theorem createDirs_creates (l : List Component) (fs : FileSystem C) :
    Creates l.reverse fs (createDirs l fs) := by
  induction l generalizing fs with
  | nil =>
    refine ⟨not_blocked_nil fs, ?_⟩
    intro m
    split
    · next hm =>
      obtain rfl := List.mem_singleton.mp hm
      exact fs.node_nil
    · rfl
  | cons c l ih =>
    by_cases hc : c = .current
    · subst hc
      rw [createDirs, List.reverse_cons]
      apply (ih fs).congr
      · have h := congrArg hasNul (trim_concat_current l.reverse)
        rwa [hasNul_trim, hasNul_trim, eq_comm] at h
      · intro m
        have h := congrArg (m ∈ visited [] ·) (trim_concat_current l.reverse)
        simp only [mem_visited_trim] at h
        exact (iff_of_eq h).symm
    · have hdirs : createDirs (c :: l) fs = mkdirAfter (c :: l).reverse (createDirs l) fs := by
        cases c with
        | current => exact absurd rfl hc
        | _ => rfl
      rw [hdirs]
      apply mkdirAfter_creates ih
      · intro h
        simp [h]
      · intro m hm
        rw [List.reverse_cons]
        exact mem_visited_concat.mpr (.inl hm)
      · intro m hm
        rwa [List.reverse_cons, List.dropLast_concat] at hm

theorem createParent_creates (p : Path) (fs : FileSystem C) :
    Creates (parent p) fs (createDirs (parent p).reverse fs) := by
  have h := createDirs_creates (parent p).reverse fs
  rwa [List.reverse_reverse] at h

/-- `create_dir_all`: afterwards the path leads through directories, unless it was blocked. -/
theorem createDirAll_creates {p : Path} (hdot : p.getLast? ≠ some .current) (fs : FileSystem C) :
    Creates p fs (createDirAll p fs) := by
  apply mkdirAfter_creates (createParent_creates p) hasNul_parent fun m => mem_visited_of_parent
  intro m hm
  induction p using List.reverseRecOn with
  | nil => exact hm
  | append_singleton p c _ =>
    rw [List.getLast?_concat] at hdot
    rw [List.dropLast_concat] at hm
    rw [parent_concat_of_ne (fun hc => hdot (congrArg some hc))]
    exact mem_visited_trim.mpr hm

/-- Whatever the path is, only directories on it are added. -/
theorem createDirAll_cases (p : Path) (fs : FileSystem C) :
    (∃ fs', createDirAll p fs = .ok () fs' ∧ ¬ Blocked p fs ∧ AddedAlong p fs fs') ∨
      ∃ e fs', createDirAll p fs = .error e fs' ∧ AddedOn p fs fs' := by
  obtain hok | ⟨e, fs', herror, hon, -⟩ :=
    mkdirAfter_cases (createParent_creates p) hasNul_parent (fun m => mem_visited_of_parent) fs
  · exact .inl hok
  · exact .inr ⟨e, fs', herror, hon⟩

/-! ### Locations -/

theorem ext_node {fs fs' : FileSystem C} (h : fs.node = fs'.node) : fs = fs' := by
  cases fs with
  | mk nodes root parents =>
    cases fs' with
    | mk nodes' root' parents' =>
      obtain rfl : nodes = nodes' := Finmap.ext_lookup fun l => congrFun h l
      rfl

/-- The way to a location is made, or it is blocked and nothing happens. -/
theorem createDirAll_names {l : Location} (hnul : NulFree l) (fs : FileSystem C) :
    (∃ fs', createDirAll (names l) fs = .ok () fs' ∧
      (∀ m, m <+: l → ∀ content, fs.node m ≠ some (.file content)) ∧
      fs'.node = fun m => if m <+: l then some .directory else fs.node m) ∨
    ∃ e, createDirAll (names l) fs = .error e fs ∧
      ∃ m, m <+: l ∧ ∃ content, fs.node m = some (.file content) := by
  have hdot : (names l).getLast? ≠ some .current := by
    simp [names, List.getLast?_map]
  have h := createDirAll_creates hdot fs
  cases hcreated : createDirAll (names l) fs with
  | ok _ fs' =>
    rw [hcreated] at h
    refine .inl ⟨fs', rfl, ?_, ?_⟩
    · intro m hm content hfile
      exact h.1 (.inr ⟨m, mem_visited_names.mpr hm, content, hfile⟩)
    · funext m
      rw [h.2 m, if_congr mem_visited_names rfl rfl]
  | error e fs' =>
    rw [hcreated] at h
    obtain hbad | ⟨m, hm, content, hfile⟩ := h.1
    · simp [hasNul_names hnul] at hbad
    refine .inr ⟨e, ?_, m, mem_visited_names.mp hm, content, hfile⟩
    congr 1
    apply ext_node
    funext x
    obtain heq | ⟨hx, hnone, hdir⟩ := h.2 x
    · exact heq
    · -- below the file nothing can have been added
      have hm' : fs'.node m = some (.file content) := by
        obtain heq | ⟨-, hnone, -⟩ := h.2 m
        · rw [heq, hfile]
        · rw [hfile] at hnone
          simp at hnone
      obtain hxm | hmx := List.prefix_or_prefix_of_prefix (mem_visited_names.mp hx)
        (mem_visited_names.mp hm)
      · rw [fs.node_eq_none_of_isPrefix hnone hxm] at hfile
        simp at hfile
      · by_cases heq : m = x
        · rw [← heq, hm'] at hdir
          simp at hdir
        · rw [fs'.node_of_isPrefix (by rw [hdir]; exact Option.some_ne_none _) hmx heq] at hm'
          simp at hm'

/-! ## Removal -/

theorem resolve_of_enter {fs : FileSystem C} {p : Path} {l : Location} (h : fs.enter p = some l) :
    fs.resolve p = .ok l := by
  unfold enter at h
  split at h
  · next m hm =>
    split at h
    · rw [hm, Option.some.inj h]
    · exact nomatch h
  · exact nomatch h

theorem readDir_of_enter {fs : FileSystem C} {p : Path} {l : Location} (h : fs.enter p = some l) :
    fs.readDir p = .ok (fs.children l) := by
  rw [readDir, resolve_of_enter h]
  simp only [bind, Except.bind, node_of_enter h]

/-- A directory is removed with all that is below it. -/
theorem removeDirAll_names {l : Location} (hne : l ≠ []) (hnul : NulFree l) {fs : FileSystem C}
    (hdir : fs.node l = some .directory) :
    ∃ fs', removeDirAll (names l) fs = .ok () fs' ∧
      fs'.node = fun m => if l <+: m then none else fs.node m := by
  have henter : fs.enter (names l) = some l := by rw [enter_names hnul, if_pos hdir]
  have hlast : (names l).getLast? = some (.name (l.getLast hne)) := by
    rw [names, List.getLast?_map, List.getLast?_eq_some_getLast hne]
    rfl
  refine ⟨fs.removeTree l hne, ?_, funext fun m => node_removeTree ..⟩
  unfold removeDirAll
  rw [resolve_of_enter henter]
  dsimp only
  rw [hdir, hlast]
  exact dif_pos hne

end FileSystem

end Files
