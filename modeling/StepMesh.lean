import StepMesh.Lib.ListAux
import StepMesh.Lib.Run
import StepMesh.Lib.Progress
import StepMesh.Lib.ByteBuf
import StepMesh.Lib.Threads
import StepMesh.Message
import StepMesh.Postoffice
import StepMesh.Customer
import StepMesh.AFWorker
import StepMesh.AFWorkerFrames
import StepMesh.AFWorkerHandles
import StepMesh.AFServer
import StepMesh.AFServerReorder
import StepMesh.FServer
import StepMesh.FServerRespond
import StepMesh.ServerAnswers
import StepMesh.Codec
import StepMesh.CodecRoundTrip
import StepMesh.KVWorker
import StepMesh.KVWorkerCount
import StepMesh.KVWorkerCallback
import StepMesh.VanCommon
import StepMesh.RdmaVan
import StepMesh.RdmaVanSpec
import StepMesh.RdmaNet
import StepMesh.RdmaPayload
import StepMesh.RdmaProto
import StepMesh.Lib.Rendezvous
import StepMesh.RdmaRefine
import StepMesh.RdmaPops
import StepMesh.FServerQueue
import StepMesh.FServerHandlers
import StepMesh.Resender
import StepMesh.ResenderNet
import StepMesh.Lib.StdSort
import StepMesh.Scheduler
import StepMesh.SchedulerIds
import StepMesh.SchedulerRecovery
import StepMesh.Barrier
import StepMesh.InstanceBarrier
import StepMesh.GroupBarrier
import StepMesh.RdmaConnect
import StepMesh.RdmaSplit
import StepMesh.RdmaPool
import StepMesh.Routing
import StepMesh.SimpleApp
import StepMesh.Lib.Cut
import StepMesh.Lib.Ring
import StepMesh.KVSlice
import StepMesh.KVPull
import StepMesh.ThreadsafeQueue
import StepMesh.ZmqVan
import StepMesh.RecvTensor
import StepMesh.RdmaRecvContexts
import StepMesh.RdmaImmediate
import StepMesh.RecvBuffers
import StepMesh.GdrBuffers
import StepMesh.SimpleNotify
import StepMesh.AFWorkerStop
import StepMesh.RdmaAddrCache
import StepMesh.ResponseEvents
import StepMesh.ResenderStart
import StepMesh.Lib.RendezvousOrder
import StepMesh.RdmaOrder
import StepMesh.RdmaSteps
import StepMesh.RdmaWaits
import StepMesh.RdmaChecks
import StepMesh.RdmaProgress
import StepMesh.AddressPool
import StepMesh.BarrierCustomers
import StepMesh.Lib.Fifo
import StepMesh.SpscQueue
import StepMesh.PushLength
import StepMesh.CodecBounds
import StepMesh.UcxVan
import StepMesh.UcxVanSpec
import StepMesh.UcxTransfer
import StepMesh.UcxRecvPool
import StepMesh.UcxPull
import StepMesh.Lib.Resequencer
import StepMesh.UcxReorder
import StepMesh.TpVan
import StepMesh.AFBatches
import StepMesh.BatchDelivery
import StepMesh.DecodeKey
import StepMesh.SharedArrayLists
import StepMesh.Lib.Chains
import StepMesh.HashMapRun
import StepMesh.AFWorkerTable
