import Warrant.Proofs.Engine.Administration
import Warrant.Proofs.Engine.Authorization
import Warrant.Proofs.Except

/-!
# Replacing grants and giving them one by one

The catalog is one on which no call fails. Then to assign a grant and to replace all grants are
judged alike, by the set that the catalog holds (`assign_decided`, `replace_decided`): a replacement
is refused as its first bad element would be, and writes nothing then. One that is accepted leaves
what taking every grant away and giving the new ones leaves, in whatever order
(`replace_agrees_with_assign`). After a synchronisation just the legal capabilities are accepted.
-/

namespace Warrant

/-! ### Taking grants away and giving others -/

namespace GrantStore

variable {g g' : GrantStore} {p : Principal} {s : String} {taken : List String}
  {cs given : List Capability}

theorem mem_direct_revoked :
    s ∈ ((taken.map (Change.revoke p)).foldl after g).direct p ↔ s ∈ g.direct p ∧ s ∉ taken := by
  induction taken generalizing g with
  | nil => simp
  | cons grant rest ih =>
    rw [List.map_cons, List.foldl_cons, ih, mem_direct_revoke, List.mem_cons, not_or, and_assoc]
    exact and_congr_right fun _ => and_congr_left fun _ => by rw [and_iff_right rfl]

theorem mem_direct_assigned :
    s ∈ ((given.map (Change.assign p)).foldl after g).direct p ↔
      (∃ c ∈ given, s = c.render) ∨ s ∈ g.direct p := by
  induction given generalizing g with
  | nil => simp
  | cons c rest ih =>
    rw [List.map_cons, List.foldl_cons, ih, mem_direct_assign]
    simp only [List.mem_cons, exists_eq_or_imp, true_and]
    rw [or_left_comm, or_assoc]

/-- Whatever was held is taken away, and then the grants are given: this is what replacing them
leaves. -/
theorem exchanged_eq_replaced (htaken : ∀ s ∈ g.direct p, s ∈ taken)
    (hgiven : ∀ s, (∃ c ∈ given, s = c.render) ↔ ∃ c ∈ cs, s = c.render) :
    (given.map (Change.assign p)).foldl after ((taken.map (Change.revoke p)).foldl after g) =
      g.after (.replace p cs) := by
  rw [← List.foldl_append]
  have hsubject : ∀ ch ∈ taken.map (Change.revoke p) ++ given.map (Change.assign p),
      ch.subject = .grantsOf p := by
    intro ch hch
    rcases List.mem_append.1 hch with hch | hch
    · obtain ⟨_, -, rfl⟩ := List.mem_map.1 hch
      rfl
    · obtain ⟨_, -, rfl⟩ := List.mem_map.1 hch
      rfl
  refine eq_of_direct_of_rolesOf (fun q => ?_) fun user => ?_
  · by_cases hq : q = p
    · subst hq
      ext s
      rw [List.foldl_append, mem_direct_assigned, mem_direct_revoked, mem_direct_replace, hgiven]
      simp only [true_and, ne_eq, not_true_eq_false, false_and, or_false]
      exact or_iff_left fun h => h.2 (htaken s h.1)
    · have hother : Subject.grantsOf p ≠ .grantsOf q := fun h => hq (Subject.grantsOf.inj h).symm
      have hreplaced : (g.after (.replace p cs)).direct q = g.direct q := direct_after_of_ne hother
      rw [hreplaced]
      exact direct_foldl_of_ne fun ch hch => hsubject ch hch ▸ hother
  · exact rolesOf_foldl_of_ne fun ch hch => hsubject ch hch ▸ nofun

end GrantStore

namespace Engine

open Call GrantStore

variable {κ : Type} {s : TextSet} {p : Principal} {text : String} {texts : List String}

/-! ### What is accepted -/

theorem exists_accepted_iff :
    (∃ c, accept s text = .ok c) ↔ (∃ c, Capability.parse text = .ok c) ∧ text ∈ s := by
  unfold accept
  cases Capability.parse text with
  | error reason => simp
  | ok c =>
    by_cases hmem : text ∈ s
    · simp [hmem]
    · simp [hmem]

theorem accept_error {error : EngineError} (h : accept s text = .error error) :
    (∀ reason, Capability.parse text = .error reason → error = .malformed reason) ∧
      ∀ c, Capability.parse text = .ok c → error = .unknownCapability text := by
  unfold accept at h
  cases hparse : Capability.parse text with
  | error reason =>
    rw [hparse] at h
    cases h
    exact ⟨fun _ hr => by cases hr; rfl, fun _ => nofun⟩
  | ok c =>
    rw [hparse] at h
    dsimp only at h
    split at h
    · cases h
    · cases h
      exact ⟨fun _ => nofun, fun _ _ => rfl⟩

/-! ### Requests and the set that the catalog holds -/

theorem revoke_each_ends (p : Principal) (taken : List String) (e : Engine κ) :
    (taken.forM fun grant => do let _ ← revoke p grant : Op κ Unit).Ends e
      (fun _ e' => e' = { e with grants := (taken.map (Change.revoke p)).foldl after e.grants })
      (fun _ _ => False) := by
  induction taken generalizing e with
  | nil => exact rfl
  | cons grant rest ih =>
    refine (revoke_ends p grant e).dropped.bind ?_
    rintro _ _ rfl
    exact ih _

variable [CatalogStore κ] {law : CatalogLaw κ} {e : Engine κ}

/-- Takes some grants away, one by one, and then gives others. -/
def exchange (p : Principal) (taken given : List String) : Op κ Unit := do
  taken.forM fun grant => do
    let _ ← revoke p grant
  given.forM fun text => do
    let _ ← assign p text

def CanAssign (e : Engine κ) (p : Principal) (text : String) : Prop :=
  ∃ added, (assign p text e).answer = .ok added

/-- The failure is that of the first grant in a list that the principal cannot be given. The grammar
comes first: what it refuses is malformed, whether or not the catalog holds it. -/
def RefusedFirst (e : Engine κ) (p : Principal) (texts : List String)
    (f : Failure EngineError) : Prop :=
  ∃ before text later, texts = before ++ text :: later ∧ (∀ t ∈ before, e.CanAssign p t) ∧
    (assign p text e).answer = .error f ∧
    (∀ reason, Capability.parse text = .error reason → f = .error (.malformed reason)) ∧
    ∀ c, Capability.parse text = .ok c → f = .error (.unknownCapability text)

section Decided

variable (hnever : ∀ k t, ¬ law.Failed k t) (h : law.Holds e.catalog s)
include hnever h

theorem assign_decided (p : Principal) (text : String) :
    (assign p text).Ends e
      (fun _ e' => ∃ c k, accept s text = .ok c ∧ law.Holds k s ∧
        e' = ⟨e.grants.after (.assign p c), k, e.guard⟩)
      (fun f e' => ∃ error, accept s text = .error error ∧ f = .error error ∧
        e.OnlyCatalog (law.Holds · s) e') := by
  unfold assign accept parse
  cases hparse : Capability.parse text with
  | error reason => exact ⟨_, rfl, rfl, e.catalog, h, rfl⟩
  | ok c =>
    refine (ends_bind_of_ok (pure_apply c e)).2 ?_
    refine Ends.bind ((onCatalog_ends (law.contains text h)).mono (fun _ _ => id) ?_) ?_
    · rintro _ _ ⟨_, k, hk, -⟩
      exact absurd hk (hnever k s)
    rintro known _ ⟨k, ⟨rfl, hk⟩, rfl⟩
    by_cases hmem : text ∈ s
    · rw [decide_eq_true hmem]
      refine (changed_ends _ _ _).mono ?_ fun _ _ => False.elim
      rintro _ _ rfl
      exact ⟨c, k, if_pos hmem, hk, rfl⟩
    · rw [decide_eq_false hmem]
      exact ⟨_, if_neg hmem, rfl, k, hk, rfl⟩

theorem replace_decided (p : Principal) (texts : List String) :
    (replace p texts).Ends e
      (fun _ e' => ∃ cs k, texts.mapM (accept s) = .ok cs ∧ law.Holds k s ∧
        e' = ⟨e.grants.after (.replace p cs), k, e.guard⟩)
      (fun f e' => ∃ error, texts.mapM (accept s) = .error error ∧ f = .error error ∧
        e.OnlyCatalog (law.Holds · s) e') := by
  unfold replace
  refine Ends.bind ((onCatalog_ends (law.load h)).mono (fun _ _ => id) ?_) ?_
  · rintro _ _ ⟨_, k, hk, -⟩
    exact absurd hk (hnever k s)
  rintro catalog _ ⟨k, ⟨rfl, hk⟩, rfl⟩
  cases hmap : texts.mapM (accept catalog) with
  | error error => exact ⟨error, rfl, rfl, k, hk, rfl⟩
  | ok cs => exact ⟨cs, k, rfl, hk, rfl⟩

theorem assign_each_ends (p : Principal) (given : List String) :
    (given.forM fun text => do let _ ← assign p text : Op κ Unit).Ends e
      (fun _ e' => ∃ cs k, given.mapM (accept s) = .ok cs ∧ law.Holds k s ∧
        e' = ⟨(cs.map (Change.assign p)).foldl after e.grants, k, e.guard⟩)
      (fun _ _ => ∃ text ∈ given, ∃ error, accept s text = .error error) := by
  induction given generalizing e with
  | nil => exact ⟨[], e.catalog, rfl, h, rfl⟩
  | cons text rest ih =>
    refine Ends.bind ((assign_decided hnever h p text).mono (fun _ _ => id) ?_).dropped ?_
    · rintro _ _ ⟨error, herror, -⟩
      exact ⟨text, List.mem_cons_self, error, herror⟩
    rintro _ _ ⟨c, k, hc, hk, rfl⟩
    refine (ih hk).mono ?_ ?_
    · rintro _ _ ⟨cs, k, hcs, hk, rfl⟩
      refine ⟨c :: cs, k, ?_, hk, rfl⟩
      rw [List.mapM_cons, hc, hcs]
      rfl
    · rintro _ _ ⟨text, htext, herror⟩
      exact ⟨text, List.mem_cons_of_mem _ htext, herror⟩

/-! ### Replacing against giving -/

theorem canAssign_iff : e.CanAssign p text ↔ ∃ c, accept s text = .ok c := by
  have hassign := assign_decided hnever h p text
  constructor
  · rintro ⟨added, hadded⟩
    obtain ⟨c, -, hc, -⟩ := hassign.of_ok hadded
    exact ⟨c, hc⟩
  · rintro ⟨c, hc⟩
    obtain ⟨added, hadded, -⟩ := hassign.answers fun _ _ ⟨error, herror, _⟩ => by
      cases hc.symm.trans herror
    exact ⟨added, hadded⟩

theorem answer_assign_of_refused {error : EngineError} (herror : accept s text = .error error) :
    (assign p text e).answer = .error (.error error) := by
  obtain ⟨_, hanswer, error', herror', rfl, -⟩ :=
    (assign_decided hnever h p text).fails fun _ _ ⟨c, _, hc, _⟩ => by
      cases hc.symm.trans herror
  cases herror.symm.trans herror'
  exact hanswer

theorem replace_answers_iff :
    (replace p texts e).answer = .ok () ↔ ∀ text ∈ texts, e.CanAssign p text := by
  have hreplace := replace_decided hnever h p texts
  simp only [canAssign_iff hnever h, ← exists_of_mapM_ok]
  constructor
  · intro hanswer
    obtain ⟨cs, -, hcs, -⟩ := hreplace.of_ok hanswer
    exact ⟨cs, hcs⟩
  · rintro ⟨cs, hcs⟩
    obtain ⟨_, hanswer, -⟩ := hreplace.answers fun _ _ ⟨error, herror, _⟩ => by
      cases hcs.symm.trans herror
    exact hanswer

theorem refusedFirst_of_replace {f : Failure EngineError}
    (hf : (replace p texts e).answer = .error f) :
    e.RefusedFirst p texts f ∧ e.OnlyCatalog (law.Holds · s) (replace p texts e).state := by
  obtain ⟨error, herror, rfl, hstate⟩ := (replace_decided hnever h p texts).of_error hf
  obtain ⟨before, text, later, htexts, hbefore, htext⟩ := exists_first_of_mapM_error herror
  obtain ⟨hmalformed, hunknown⟩ := accept_error htext
  refine ⟨⟨before, text, later, htexts, fun t ht => (canAssign_iff hnever h).2 (hbefore t ht),
    answer_assign_of_refused hnever h htext, fun reason hreason => ?_, fun c hc => ?_⟩, hstate⟩
  · rw [hmalformed reason hreason]
  · rw [hunknown c hc]

/-- Whatever was held is taken away and the same grants are given, in any order: this leaves what
replacing them leaves. -/
theorem exchange_of_replace {held given : List String}
    (hanswer : (replace p texts e).answer = .ok ())
    (hheld : ∀ x, x ∈ held ↔ x ∈ e.grants.direct p) (hgiven : ∀ x, x ∈ given ↔ x ∈ texts) :
    (exchange p held given).Ends e
      (fun _ e' => e'.grants = (replace p texts e).state.grants ∧ e'.guard = e.guard ∧
        law.Holds e'.catalog s)
      (fun _ _ => False) := by
  obtain ⟨cs, k, hcs, -, hstate⟩ := (replace_decided hnever h p texts).of_ok hanswer
  refine Ends.bind ((revoke_each_ends p held e).mono (fun _ _ => id) fun _ _ => False.elim) ?_
  intro _ t ht
  have hholds : law.Holds t.catalog s := ht ▸ h
  refine (assign_each_ends hnever hholds p given).mono ?_ ?_
  · rintro _ _ ⟨ds, k', hds, hk', rfl⟩
    subst ht
    refine ⟨?_, rfl, hk'⟩
    rw [hstate]
    refine exchanged_eq_replaced (fun x hx => (hheld x).2 hx) fun x => ?_
    have hrendered : ∀ {cs : List Capability} {texts : List String},
        texts = cs.map Capability.render → ((∃ c ∈ cs, x = c.render) ↔ x ∈ texts) := by
      rintro cs _ rfl
      simp only [List.mem_map, eq_comm]
    rw [hrendered (render_of_accepted hds).1, hrendered (render_of_accepted hcs).1, hgiven]
  · rintro _ _ ⟨text, htext, error, herror⟩
    obtain ⟨c, hc⟩ := exists_of_mapM_ok.1 ⟨cs, hcs⟩ text ((hgiven text).1 htext)
    rw [hc] at herror
    cases herror

end Decided

/-- After a synchronisation, for as long as the catalog is left alone, just the legal capabilities
are accepted. -/
theorem canAssign_after_synchronize (hnever : ∀ k t, ¬ law.Failed k t)
    {law₀ : CatalogLaw κ} {r : Registry} {e₀ : Engine κ} {before : TextSet} {report : Report}
    (hbefore : law₀.Holds e₀.catalog before) (hsync : (synchronize r e₀).answer = .ok report)
    (hleft : ∀ t, law₀.Holds (synchronize r e₀).state.catalog t → law.Holds e.catalog t) :
    e.CanAssign p text ↔ text ∈ r.legal := by
  have hlegal := hleft _ (holds_after_synchronize hbefore hsync)
  rw [canAssign_iff hnever hlegal, exists_accepted_iff]
  refine and_iff_right_of_imp fun hmem => ?_
  obtain ⟨c, rfl⟩ := Registry.exists_render_of_mem_legal hmem
  exact ⟨c, Capability.parse_render c⟩

/-- On a catalog whose calls do not fail, grants are replaced just when each one could be assigned.
A replacement that is refused fails as the first bad one would and writes nothing; one that is
carried out leaves what taking every direct grant away and assigning the new ones leaves, in any
order. After a synchronisation all legal capabilities can be assigned, and no other text. -/
theorem replace_agrees_with_assign (law : CatalogLaw κ) (hnever : ∀ k t, ¬ law.Failed k t)
    (e : Engine κ) (s : TextSet) (h : law.Holds e.catalog s) (p : Principal)
    (texts : List String) :
    let out := replace p texts e
    (out.answer = .ok () ↔ ∀ text ∈ texts, e.CanAssign p text) ∧
    (∀ f, out.answer = .error f →
      e.RefusedFirst p texts f ∧ e.OnlyCatalog (law.Holds · s) out.state) ∧
    (out.answer = .ok () → ∀ held given : List String,
      (∀ x, x ∈ held ↔ x ∈ e.grants.direct p) → (∀ x, x ∈ given ↔ x ∈ texts) →
        let one := exchange p held given e
        one.answer = .ok () ∧ one.state.grants = out.state.grants ∧
          one.state.guard = out.state.guard ∧ law.Holds one.state.catalog s ∧
            law.Holds out.state.catalog s) ∧
    ∀ (law₀ : CatalogLaw κ) (r : Registry) (e₀ : Engine κ) (before : TextSet) (report : Report),
      law₀.Holds e₀.catalog before → (synchronize r e₀).answer = .ok report →
      (∀ t, law₀.Holds (synchronize r e₀).state.catalog t → law.Holds e.catalog t) →
        (∀ text, e.CanAssign p text ↔ text ∈ r.legal) ∧
          (out.answer = .ok () ↔ ∀ text ∈ texts, text ∈ r.legal) := by
  intro out
  have hanswers : out.answer = .ok () ↔ ∀ text ∈ texts, e.CanAssign p text :=
    replace_answers_iff hnever h
  refine ⟨hanswers, fun f hf => refusedFirst_of_replace hnever h hf,
    fun hok held given hheld hgiven => ?_, fun law₀ r e₀ before report hbefore hsync hleft => ?_⟩
  · obtain ⟨_, hone, hgrants, hguard, hholds⟩ :=
      (exchange_of_replace hnever h hok hheld hgiven).answers fun _ _ => id
    obtain ⟨cs, k, -, hk, hstate⟩ := (replace_decided hnever h p texts).of_ok hok
    refine ⟨hone, hgrants, ?_, hholds, ?_⟩
    · rw [hguard, hstate]
    · rw [hstate]
      exact hk
  · have hlegal : ∀ text, e.CanAssign p text ↔ text ∈ r.legal := fun text =>
      canAssign_after_synchronize hnever hbefore hsync hleft
    refine ⟨hlegal, ?_⟩
    rw [hanswers]
    simp only [hlegal]

/-- An editor who holds a stale grant. Of three texts the second is refused, malformed as it is,
though the catalog holds it; after a synchronisation the legal ones replace the stale grant as they
would one by one, in another order and one of them twice. -/
theorem editor_replaced_after_synchronize :
    let r : Registry := ⟨[⟨"post", "delete", true, false⟩]⟩
    let p : Principal := .role "editor"
    let held : GrantStore := ⟨fun _ => TextSet.ofList ["post:old"], fun _ => ∅⟩
    let before : Engine MemoryCatalog := new held ⟨TextSet.ofList ["post:old", "::"]⟩
    let later : Engine MemoryCatalog := (synchronize r before).state
    before.RefusedFirst p ["post:old", "::", "post:gone"]
        (.error (.malformed (.emptySegment "::"))) ∧
      (exchange p ["post:old"] ["post:delete", "post:*", "post:delete"] later).state.grants =
        (replace p ["post:*", "post:delete"] later).state.grants := by
  intro r p held before later
  have hsync := (runSync_of_free (e := before) r false MemoryCatalog.law (fun _ _ => id) rfl rfl).1
  obtain ⟨-, hrefused, -⟩ := replace_agrees_with_assign MemoryCatalog.law (fun _ _ => id) before _
    rfl p ["post:old", "::", "post:gone"]
  obtain ⟨-, -, hexchange, hlegal⟩ := replace_agrees_with_assign MemoryCatalog.law (fun _ _ => id)
    later _ rfl p ["post:*", "post:delete"]
  have hanswer : (replace p ["post:*", "post:delete"] later).answer = .ok () := by
    refine (hlegal MemoryCatalog.law r before _ _ rfl hsync fun _ => id).2.2 ?_
    decide +kernel
  refine ⟨(hrefused _ (by rfl)).1, (hexchange hanswer _ _ (fun x => ?_) fun x => ?_).2.1⟩
  · rw [show later.grants.direct p = TextSet.ofList ["post:old"] from rfl, TextSet.mem_ofList]
  · simp only [List.mem_cons, List.not_mem_nil, or_false]
    grind

end Engine

end Warrant
