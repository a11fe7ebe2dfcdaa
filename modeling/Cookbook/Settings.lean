import Cookbook.Schema.Shape

/-!
# Settings
-/

namespace Cookbook

structure Settings where
  appName : String
  /-- How long a snapshot of counts stays fresh, in seconds. -/
  cacheTtl : Int
  /-- The most recipes in a detail view; counted from the end when negative. -/
  detailLimit : Int
  sampleLimit : Int
  nearThreshold : Number
  syncOnStartup : Bool
deriving DecidableEq, Repr

def Settings.standard : Settings where
  appName := "Collection Curation Workbench"
  cacheTtl := 3600
  detailLimit := 100
  sampleLimit := 50
  nearThreshold := .float (Binary64.ofInt 80)
  syncOnStartup := false

open Schema in
/-- Settings from members that may be texts; what is absent is standard. -/
def Settings.ofMembers (ms : Members) : Checked Settings :=
  Settings.mk <$> memberD ms ["app_name"] text standard.appName
    <*> memberD ms ["cache_ttl_seconds"] whole standard.cacheTtl
    <*> memberD ms ["detail_recipe_limit"] whole standard.detailLimit
    <*> memberD ms ["sample_limit_max"] whole standard.sampleLimit
    <*> memberD ms ["near_threshold"] (fun j => (real j).map .float) standard.nearThreshold
    <*> memberD ms ["sync_definitions_on_startup"] truth standard.syncOnStartup

end Cookbook
