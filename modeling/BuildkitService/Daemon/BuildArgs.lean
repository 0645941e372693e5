import BuildkitService.Daemon.Request

/-!
# Build arguments and the order of a map

`parseBuildArgs` ranges over a Go map, in an order that differs from run to run, and the last field
that sets an argument wins.
-/

namespace BuildkitService.Daemon

open Strings List Assoc

def frontendAttrs (target : Bytes) (noCache : Bool) (buildArgs : List (Bytes × Bytes)) : List (Bytes × Bytes) :=
  let attrs := if (trimSpace target).isEmpty then [] else [(ascii "target", trimSpace target)]
  let attrs := if noCache then Assoc.put (ascii "no-cache") [] attrs else attrs
  buildArgs.foldl (fun attrs arg => Assoc.put (ascii "build-arg:" ++ arg.1) arg.2 attrs) attrs

/-! ### Fields that set an argument -/

def Spells (key name : Bytes) : Prop :=
  ∃ written, (key = ascii "build_arg." ++ written ∨ key = ascii "build_arg:" ++ written) ∧ trimSpace written = name

structure Gives (field : Bytes × List Bytes) (name value : Bytes) : Prop where
  spells : Spells field.1 name
  named : name ≠ []
  first : field.2.head? = some value

def setting (field : Bytes × List Bytes) : Option (Bytes × Bytes) :=
  match field.2, buildArgName field.1 with
  | value :: _, some name => if name.isEmpty then none else some (name, value)
  | _, _ => none

variable {form : Form} {field : Bytes × List Bytes} {fields : List (Bytes × List Bytes)} {key name value : Bytes}

theorem buildArgName_eq_some_iff : buildArgName key = some name ↔ Spells key name := by
  have hpre : ∀ {pre}, hasPrefix key pre = true ↔ ∃ written, key = pre ++ written := by
    intro pre
    rw [hasPrefix, isPrefixOf_iff_prefix]
    exact exists_congr fun _ => eq_comm
  -- no key has both spellings
  have hapart : ∀ written, hasPrefix (ascii "build_arg:" ++ written) (ascii "build_arg.") = false := fun _ => rfl
  rw [buildArgName]
  constructor
  · intro hname
    split_ifs at hname with hdot hcolon
    · obtain ⟨written, rfl⟩ := hpre.1 hdot
      rw [trimPrefix_append] at hname
      exact ⟨written, .inl rfl, Option.some.inj hname⟩
    · obtain ⟨written, rfl⟩ := hpre.1 hcolon
      rw [trimPrefix_append] at hname
      exact ⟨written, .inr rfl, Option.some.inj hname⟩
  · rintro ⟨written, rfl | rfl, rfl⟩
    · rw [if_pos (hpre.2 ⟨written, rfl⟩), trimPrefix_append]
    · rw [hapart written, if_neg Bool.false_ne_true, if_pos (hpre.2 ⟨written, rfl⟩), trimPrefix_append]

theorem setting_eq_some_iff : setting field = some (name, value) ↔ Gives field name value := by
  obtain ⟨key, values⟩ := field
  have hgives : Gives (key, values) name value ↔ buildArgName key = some name ∧ name ≠ [] ∧ values.head? = some value := by
    rw [buildArgName_eq_some_iff]
    exact ⟨fun hgives => ⟨hgives.spells, hgives.named, hgives.first⟩, fun ⟨hspells, hnamed, hfirst⟩ => ⟨hspells, hnamed, hfirst⟩⟩
  rw [hgives, setting]
  cases values with
  | nil => simp
  | cons first more =>
    cases hname : buildArgName key with
    | none => simp
    | some given =>
      dsimp only
      split_ifs with hempty
      · rw [List.isEmpty_iff] at hempty
        subst hempty
        refine iff_of_false nofun ?_
        rintro ⟨hgiven, hnamed, _⟩
        exact hnamed (Option.some.inj hgiven).symm
      · constructor
        · intro hsome
          obtain ⟨rfl, rfl⟩ := Prod.mk.inj (Option.some.inj hsome)
          exact ⟨rfl, fun hnil => hempty (List.isEmpty_iff.2 hnil), rfl⟩
        · rintro ⟨hgiven, _, hfirst⟩
          rw [Option.some.inj hgiven, Option.some.inj hfirst]

theorem parseBuildArgs_eq (form : Form) : parseBuildArgs form = putAll (form.multipart.filterMap setting) [] := by
  rw [putAll, foldl_filterMap, parseBuildArgs]
  congr 1
  funext args entry
  obtain ⟨key, values⟩ := entry
  rw [setting]
  cases values with
  | nil => rfl
  | cons first more =>
    cases buildArgName key with
    | none => rfl
    | some given =>
      dsimp only
      split_ifs
      · rfl
      · rfl

theorem lookup_parseBuildArgs (form : Form) (name : Bytes) :
    (parseBuildArgs form).lookup name = (form.multipart.filterMap setting).reverse.lookup name := by
  rw [parseBuildArgs_eq, lookup_putAll, lookup_nil, Option.or_none]

theorem nodup_parseBuildArgs (form : Form) : ((parseBuildArgs form).map Prod.fst).Nodup := by
  rw [parseBuildArgs_eq]
  exact nodup_putAll _ nodup_nil

theorem mem_settings : (name, value) ∈ fields.filterMap setting ↔ ∃ field ∈ fields, Gives field name value := by
  rw [mem_filterMap]
  exact exists_congr fun field => and_congr_right fun _ => setting_eq_some_iff

/-! ### The order of the fields -/

def Agreeing (fields : List (Bytes × List Bytes)) : Prop :=
  ∀ field ∈ fields, ∀ field' ∈ fields, ∀ name value value', Gives field name value → Gives field' name value' →
    value = value'

structure Determined (form : Form) : Prop where
  args : ∀ order, order.Perm form.multipart → ∀ name,
    (parseBuildArgs { form with multipart := order }).lookup name = (parseBuildArgs form).lookup name
  attrs : ∀ order, order.Perm form.multipart → ∀ args, args.Perm (parseBuildArgs { form with multipart := order }) →
    ∀ target noCache key, (frontendAttrs target noCache args).lookup key =
      (frontendAttrs target noCache (parseBuildArgs form)).lookup key

theorem lookup_last (hmem : field ∈ form.multipart) (hgives : Gives field name value) :
    ∃ order, order.Perm form.multipart ∧ (parseBuildArgs { form with multipart := order }).lookup name = some value := by
  obtain ⟨front, back, hsplit⟩ := append_of_mem hmem
  refine ⟨front ++ back ++ [field], ?_, ?_⟩
  · rw [hsplit]
    exact (perm_append_singleton field _).trans perm_middle.symm
  · rw [lookup_parseBuildArgs, filterMap_append, filterMap_cons, setting_eq_some_iff.2 hgives,
      filterMap_nil, reverse_append, reverse_singleton, singleton_append, lookup_cons_self]

theorem Agreeing.lookup_eq (hagreeing : Agreeing form.multipart) {order : List (Bytes × List Bytes)}
    (hperm : order.Perm form.multipart) (name : Bytes) :
    (parseBuildArgs { form with multipart := order }).lookup name = (parseBuildArgs form).lookup name := by
  rw [lookup_parseBuildArgs, lookup_parseBuildArgs]
  refine lookup_eq_of_mem_iff ?_ ?_
  · intro value value' hmem hmem'
    obtain ⟨field, hfield, hgives⟩ := mem_settings.1 (mem_reverse.1 hmem)
    obtain ⟨field', hfield', hgives'⟩ := mem_settings.1 (mem_reverse.1 hmem')
    exact hagreeing field hfield field' hfield' name value value' hgives hgives'
  · intro value
    rw [mem_reverse, mem_reverse, mem_settings, mem_settings]
    exact exists_congr fun field => and_congr_left fun _ => hperm.mem_iff

theorem frontendAttrs_eq (target : Bytes) (noCache : Bool) (args : List (Bytes × Bytes)) :
    frontendAttrs target noCache args =
      putAll (args.map fun arg => (ascii "build-arg:" ++ arg.1, arg.2)) (frontendAttrs target noCache []) := by
  rw [putAll, foldl_map]
  rfl

theorem frontendAttrs_congr {args args' : List (Bytes × Bytes)} (hnodup : (args.map Prod.fst).Nodup)
    (hsame : ∀ arg, arg ∈ args' ↔ arg ∈ args) (target : Bytes) (noCache : Bool) (key : Bytes) :
    (frontendAttrs target noCache args').lookup key = (frontendAttrs target noCache args).lookup key := by
  have hmem : ∀ (args : List (Bytes × Bytes)) value,
      (key, value) ∈ (args.map fun arg => (ascii "build-arg:" ++ arg.1, arg.2)).reverse ↔
        ∃ name, ascii "build-arg:" ++ name = key ∧ (name, value) ∈ args := by
    intro args value
    rw [mem_reverse, List.mem_map]
    constructor
    · rintro ⟨⟨name, held⟩, harg, heq⟩
      obtain ⟨hkey, rfl⟩ := Prod.mk.inj heq
      exact ⟨name, hkey, harg⟩
    · rintro ⟨name, rfl, harg⟩
      exact ⟨(name, value), harg, rfl⟩
  rw [frontendAttrs_eq, frontendAttrs_eq target noCache args, lookup_putAll, lookup_putAll]
  refine congrArg (Option.or · _) (lookup_eq_of_mem_iff ?_ ?_)
  · intro value value' hvalue hvalue'
    obtain ⟨name, hname, harg⟩ := (hmem args value).1 hvalue
    obtain ⟨name', hname', harg'⟩ := (hmem args value').1 hvalue'
    obtain rfl : name = name' := append_cancel_left (hname.trans hname'.symm)
    exact Option.some.inj (((Assoc.lookup_eq_some_iff hnodup).2 harg).symm.trans ((Assoc.lookup_eq_some_iff hnodup).2 harg'))
  · intro value
    rw [hmem, hmem]
    exact exists_congr fun name => and_congr_right fun _ => hsame _

/-- The build arguments of a request are determined exactly then. -/
theorem build_args_determined_iff (form : Form) : Determined form ↔ Agreeing form.multipart := by
  constructor
  · intro hdetermined field hfield field' hfield' name value value' hgives hgives'
    obtain ⟨order, hperm, hlast⟩ := lookup_last hfield hgives
    obtain ⟨order', hperm', hlast'⟩ := lookup_last hfield' hgives'
    rw [hdetermined.args order hperm] at hlast
    rw [hdetermined.args order' hperm', hlast] at hlast'
    exact Option.some.inj hlast'
  · intro hagreeing
    refine ⟨fun order hperm name => hagreeing.lookup_eq hperm name, ?_⟩
    intro order hperm args hargs target noCache key
    refine frontendAttrs_congr (nodup_parseBuildArgs form) ?_ target noCache key
    rintro ⟨name, value⟩
    rw [hargs.mem_iff, ← Assoc.lookup_eq_some_iff (nodup_parseBuildArgs _), hagreeing.lookup_eq hperm,
      Assoc.lookup_eq_some_iff (nodup_parseBuildArgs _)]

def bothSpellings : Form where
  query := []
  multipart := [(ascii "build_arg.VERSION", [ascii "1.2.3"]), (ascii "build_arg:VERSION", [ascii "1.2.4"])]
  file := none

theorem build_args_undetermined :
    (parseBuildArgs bothSpellings).lookup (ascii "VERSION") = some (ascii "1.2.4") ∧
      (parseBuildArgs { bothSpellings with multipart := bothSpellings.multipart.reverse }).lookup (ascii "VERSION") =
        some (ascii "1.2.3") ∧ ¬ Determined bothSpellings := by
  have hfirst : (parseBuildArgs bothSpellings).lookup (ascii "VERSION") = some (ascii "1.2.4") := by decide +kernel
  have hsecond : (parseBuildArgs { bothSpellings with multipart := bothSpellings.multipart.reverse }).lookup
      (ascii "VERSION") = some (ascii "1.2.3") := by decide +kernel
  refine ⟨hfirst, hsecond, ?_⟩
  intro hdetermined
  rw [hdetermined.args _ (List.reverse_perm _), hfirst] at hsecond
  exact absurd hsecond (by decide)

end BuildkitService.Daemon
