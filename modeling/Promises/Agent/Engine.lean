import Promises.Agent.Workload
import Promises.Engine

namespace Promises

instance : Engine Agent where
  isPromise ref := return (← get).heap.isPromise ref
  newObject := Agent.newObject
  state ref := return (← Agent.record ref).state
  result ref := return (← Agent.record ref).result
  newResolver := Agent.newResolver
  resolve := Agent.resolve
  reject := Agent.reject
  promiseOf := Agent.promiseOf
  addReactions := Agent.addReactions
  hasHandler ref := return (← Agent.record ref).handled
  markHandled := Agent.markHandled
  nextJob := Agent.nextJob
  retain := Agent.retain
  release := Agent.release
  collectGarbage := Agent.collectGarbage
  stats := return (← get).stats
  terminate := modify fun a => { a with terminating := true }
  cancelTermination := modify fun a => { a with terminating := false }
  isTerminating := return (← get).terminating

end Promises
