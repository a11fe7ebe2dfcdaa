import Cookbook.Shelf.Browse
import Cookbook.Shelf.Define
import Cookbook.Shelf.Detail
import Cookbook.Shelf.Linked
import Cookbook.Shelf.Overrides
import Cookbook.Shelf.Publish
import Cookbook.Shelf.Trial

/-!
# Calls

Everything that can be asked of the shelf, and the JSON that answers it.
-/

namespace Cookbook

inductive Call where
  | list (search : Search)
  | create (collection : NewCollection)
  | preview (request : Preview)
  | refreshCounts (ids : Option (List String))
  | syncLinked
  | qualified (type : Option String) (limit : Int)
  | detail (id : String)
  | update (id : String) (changes : Changes)
  | delete (id : String)
  | testRules (id : String) (test : RuleTest)
  | publish (id : String) (force : Bool)
  | unpublish (id : String)
  | pin (id : String) (request : PinRequest)
  | unpin (id : String) (recipes : List String)
  | reorder (id : String) (recipes : List String)
  | exclude (id : String) (recipes : List String)
  | unexclude (id : String) (recipes : List String)

namespace Call

/-- A changed row, if it can be shown; the change stays in any case. -/
def shown (a : Action Collection) : Action Json := do
  return (← Action.attempt (← a).viewed).toJson

def perform : Call → Action Json
  | list q => return (← Action.list q).toJson ListItem.toJson
  | create n => shown (Action.create n)
  | preview r => return (← Action.preview r).toJson
  | refreshCounts ids => return (← Action.refreshCounts ids).toJson
  | syncLinked => return (SyncAnswer.mk ((← Action.syncLinked).map Collection.slug) []).toJson
  | qualified type limit => return .arr ((← Action.qualified type limit).map Card.toJson)
  | detail id => return (← Action.detail id).toJson
  | update id changes => shown (Action.update id changes)
  | delete id => return (← Action.delete id).toJson
  | testRules id test => return (← Action.testRules id test).toJson
  | publish id force => return (← Action.publish id force).toJson
  | unpublish id => return (← Action.unpublish id).toJson
  | pin id request => return (← Action.pin id request).toJson
  | unpin id recipes => return (← Action.unpin id recipes).toJson
  | reorder id recipes => return (← Action.reorder id recipes).toJson
  | exclude id recipes => return (← Action.exclude id recipes).toJson
  | unexclude id recipes => return (← Action.unexclude id recipes).toJson

end Call

end Cookbook
