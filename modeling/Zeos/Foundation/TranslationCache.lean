import Mathlib

/-! # Cached translations

A cache of table entries that fills up behind the back of the program. It may take
up whatever is present in the table in use, and keeps it until it is flushed. What
it holds agrees with the table as long as only entries change that it cannot have
seen.
-/

namespace Foundation

universe u v

structure TranslationCache (Page : Type u) (Entry : Type v) (Present : Entry → Prop) where
  held : Page → Entry → Prop
  present : ∀ {page entry}, held page entry → Present entry

namespace TranslationCache

variable {Page : Type u} {Entry : Type v} {Present : Entry → Prop}
  {cache : TranslationCache Page Entry Present} {pages : Page → Prop} {table other : Page → Entry}

def fill (cache : TranslationCache Page Entry Present) (table : Page → Entry) :
    TranslationCache Page Entry Present where
  held page entry := cache.held page entry ∨ table page = entry ∧ Present entry
  present holds := holds.elim cache.present And.right

def flush (table : Page → Entry) : TranslationCache Page Entry Present where
  held page entry := table page = entry ∧ Present entry
  present holds := holds.2

def Agrees (cache : TranslationCache Page Entry Present) (pages : Page → Prop)
    (table : Page → Entry) : Prop :=
  ∀ page entry, pages page → cache.held page entry → table page = entry

theorem agrees_flush (pages : Page → Prop) (table : Page → Entry) :
    (flush table : TranslationCache Page Entry Present).Agrees pages table :=
  fun _ _ _ holds => holds.1

theorem Agrees.fill (agrees : cache.Agrees pages table) :
    (cache.fill table).Agrees pages table := by
  intro page entry within holds
  cases holds with
  | inl earlier => exact agrees page entry within earlier
  | inr now => exact now.1

theorem Agrees.change (agrees : cache.Agrees pages table)
    (unseen : ∀ page, pages page → Present (table page) → other page = table page) :
    cache.Agrees pages other := by
  intro page entry within holds
  have here := agrees page entry within holds
  have present : Present (table page) := by
    rw [here]
    exact cache.present holds
  exact (unseen page within present).trans here

end TranslationCache

end Foundation
